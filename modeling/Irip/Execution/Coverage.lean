import Mathlib.Algebra.Order.Field.Rat
import Mathlib.Tactic.NormNum
import Irip.Execution.Dag

/-!
# `Execution.Coverage` — the coverage that an LLM step declares

An LLM step chooses an analysis mode from a profile of its data, cuts the data into chunks when an estimate of their
tokens exceeds the budget, calls the model once for each chunk (or once for all data) and declares which part of the
data has been covered and read. The rates are rational numbers here.
-/

namespace Irip.Execution

/-! ## Routing -/

/-- The values of `AnalysisMode`. -/
inductive AnalysisMode where
  | fullCompute
  | chunkedFullScan
  | directFullContext
  | retrieval
  | mixed
deriving DecidableEq, Repr

/-- The entries of a step definition that the routing reads, with the defaults of `_execute_llm_step`. -/
structure PlanStep where
  method : String := "llm"
  requiresFull : Bool := true
  perRecordSemantic : Bool := true
  crossRecordReasoning : Bool := false
  allowsSampling : Bool := false
  estimatedTokens : Int := 0

/-- `DataProfile`, as far as the routing reads it. -/
structure DataProfile where
  totalRecords : Nat := 0
  totalTokensEstimate : Nat := 0

def dataBudgetHardLimit : Int := 500000
def defaultSafetyMargin : Int := 5000
def defaultSystemTokens : Int := 2000
def defaultOutputTokens : Int := 4000
def defaultModelContextLimit : Int := 128000

/-- `calculate_budget`, with the defaults that its callers leave in place. -/
def calculateBudget (researchContextTokens : Int) : Int :=
  max 0 (min dataBudgetHardLimit
    (defaultModelContextLimit - defaultSystemTokens - researchContextTokens - defaultOutputTokens
      - defaultSafetyMargin))

/-- `analyze_step`: the mode and the reason for it. -/
def analyzeStep (step : PlanStep) (profile : DataProfile) : AnalysisMode × String :=
  let fitsBudget : Bool := (profile.totalTokensEstimate : Int) ≤ calculateBudget step.estimatedTokens
  if step.requiresFull && !step.perRecordSemantic && !step.crossRecordReasoning then
    (.fullCompute, "数据需 Python 全量计算，无需逐条语义阅读")
  else if step.requiresFull && step.perRecordSemantic then
    if fitsBudget then (.directFullContext, "数据在预算内，直接全量上下文逐条语义阅读")
    else (.chunkedFullScan, "数据超预算，分块全量扫描确保每条记录至少进入一次模型调用")
  else if step.requiresFull && step.crossRecordReasoning then
    if fitsBudget then (.directFullContext, "数据在预算内，直接全量上下文进行跨记录推理")
    else if !step.allowsSampling then (.chunkedFullScan, "数据超预算且不允许抽样，分块全量扫描后分层归并")
    else (.retrieval, "数据超预算且允许抽样，检索探索模式")
  else if step.method = "mixed" then (.mixed, "步骤需 Python 全量计算 + LLM 语义分析混合")
  else (.retrieval, "默认检索探索模式")

theorem calculateBudget_nonneg (tokens : Int) : 0 ≤ calculateBudget tokens := le_max_left _ _

/-- **Data of which the profile says nothing fit the budget**: the mode depends on the flags and the method alone. -/
theorem analyzeStep_empty (step : PlanStep) :
    (analyzeStep step {}).1 =
      if step.requiresFull then
        if step.perRecordSemantic || step.crossRecordReasoning then .directFullContext else .fullCompute
      else if step.method = "mixed" then .mixed else .retrieval := by
  have hfits : decide ((({} : DataProfile).totalTokensEstimate : Int) ≤ calculateBudget step.estimatedTokens) = true :=
    decide_eq_true (calculateBudget_nonneg _)
  unfold analyzeStep
  rw [hfits]
  cases step.requiresFull <;> cases step.perRecordSemantic <;> cases step.crossRecordReasoning <;> simp
  all_goals split <;> rfl

/-! ## Chunks -/

structure Chunk where
  index : Nat
  content : List Char
  tokenCount : Nat
  recordRange : Nat × Nat

/-- `_estimate_tokens`: 3.5 characters for a token, and at least one token. -/
def estimateTokens (text : List Char) : Nat := if text = [] then 0 else max 1 (text.length * 2 / 7)

/-- The loop of `_chunk_by_token_budget`, at a chunk index and a position, over what is left of the data; `fuel` bounds
its rounds. -/
def chunkLoop (size : Nat) : Nat → Nat → Nat → List Char → List Chunk
  | 0, _, _, _ => []
  | _ + 1, _, _, [] => []
  | fuel + 1, n, idx, c :: cs =>
    let content := (c :: cs).take size
    { index := n, content := content, tokenCount := estimateTokens content,
      recordRange := (idx, idx + content.length) } ::
      chunkLoop size fuel (n + 1) (idx + content.length) ((c :: cs).drop size)

/-- The characters of a chunk: 3.5 for each token of nine tenths of the budget. -/
def charsPerChunk (budget : Int) : Nat :=
  let effectiveBudget := if budget * 9 / 10 ≤ 0 then 1 else budget * 9 / 10
  (if effectiveBudget * 7 / 2 ≤ 0 then 1 else effectiveBudget * 7 / 2).toNat

/-- `chunk_data`, by token budget. A round takes a character at least, so as many rounds as characters are enough. -/
def chunkData (data : List Char) (budget : Int) : List Chunk :=
  chunkLoop (charsPerChunk budget) data.length 0 0 data

theorem charsPerChunk_pos (budget : Int) : 0 < charsPerChunk budget := by
  unfold charsPerChunk
  dsimp only
  split <;> split <;> omega

theorem join_chunkLoop {size : Nat} (hsize : 0 < size) (fuel n idx : Nat) (data : List Char)
    (hfuel : data.length ≤ fuel) : (chunkLoop size fuel n idx data).flatMap Chunk.content = data := by
  induction fuel generalizing n idx data with
  | zero =>
    rw [List.eq_nil_of_length_eq_zero (Nat.le_zero.mp hfuel)]
    rfl
  | succ fuel ih =>
    cases data with
    | nil => rfl
    | cons c cs =>
      have hless : ((c :: cs).drop size).length ≤ fuel := by
        rw [List.length_drop]
        omega
      rw [chunkLoop, List.flatMap_cons, ih _ _ _ hless]
      exact List.take_append_drop size (c :: cs)

/-- **The chunks are the data.** -/
theorem join_chunkData (data : List Char) (budget : Int) : (chunkData data budget).flatMap Chunk.content = data :=
  join_chunkLoop (charsPerChunk_pos budget) _ _ _ _ (Nat.le_refl _)

theorem two_chunks {data : List Char} {budget : Int} (h : charsPerChunk budget < data.length) :
    2 ≤ (chunkData data budget).length := by
  unfold chunkData
  have hpos := charsPerChunk_pos budget
  match data, h with
  | [c], h => simp only [List.length_singleton] at h; omega
  | c :: d :: cs, h =>
    have hrest : (c :: d :: cs).drop (charsPerChunk budget) ≠ [] := by
      intro hnil
      have hlen := congrArg List.length hnil
      rw [List.length_drop, List.length_nil] at hlen
      omega
    obtain ⟨e, es, hes⟩ := List.exists_cons_of_ne_nil hrest
    show 2 ≤ (chunkLoop (charsPerChunk budget) (cs.length + 1 + 1) 0 0 (c :: d :: cs)).length
    rw [chunkLoop, hes, chunkLoop]
    simp

theorem charsPerChunk_lt {data : List Char} {budget : Int} (hb : 0 ≤ budget)
    (h : budget < ((data.length / 4 : Nat) : Int)) : charsPerChunk budget < data.length := by
  unfold charsPerChunk
  dsimp only
  split <;> split <;> omega

/-! ## Executing -/

structure CoverageDeclaration where
  analysisMode : AnalysisMode
  dataCoverageRate : ℚ
  llmReadRate : ℚ
  isSampled : Bool := false
  batchCount : Option Nat := none
  batchProgress : Option Nat := none
  modeReason : String := ""

def computeCoverage (step : PlanStep) (chunks : List Chunk) (totalRecords : Nat) (mode : AnalysisMode)
    (successfulChunks : Nat) : CoverageDeclaration :=
  let isSampled := step.allowsSampling && mode = .retrieval
  match mode with
  | .fullCompute =>
    { analysisMode := mode, dataCoverageRate := 1, llmReadRate := 0,
      modeReason := "Python 全量计算，数据覆盖率 100%" }
  | .directFullContext =>
    { analysisMode := mode, dataCoverageRate := 1, llmReadRate := 1, modeReason := "数据在预算内，全量上下文直接阅读" }
  | .chunkedFullScan =>
    let coverageRate : ℚ := if 0 < chunks.length then successfulChunks / chunks.length else 0
    { analysisMode := mode, dataCoverageRate := coverageRate, llmReadRate := coverageRate,
      batchCount := if 0 < chunks.length then some chunks.length else none,
      batchProgress := if 0 < chunks.length then some successfulChunks else none,
      modeReason := "分块全量扫描，每条记录至少进入一次模型调用" }
  | .retrieval =>
    let sampledRate : ℚ := min 1 (successfulChunks / (max 1 totalRecords : Nat))
    { analysisMode := mode, dataCoverageRate := sampledRate, llmReadRate := sampledRate, isSampled := isSampled,
      modeReason := if isSampled then "检索探索模式，部分数据被检索" else "检索探索" }
  | .mixed =>
    { analysisMode := mode, dataCoverageRate := 1, llmReadRate := 3 / 4,
      batchCount := if chunks = [] then none else some chunks.length,
      batchProgress := if chunks = [] then none else some successfulChunks,
      modeReason := "Python 全量计算 + LLM 语义分析混合" }

/-- The columns of a step's row that `update_step_progress` writes here. -/
structure StepProgress where
  analysisMode : Option AnalysisMode := none
  dataBudgetTokens : Option Int := none
  coverageRate : Option ℚ := none
  llmReadRate : Option ℚ := none
  isSampled : Bool := false
  modeReason : Option String := none

/-- `update_step_progress` with a declaration, and with the budget where it is given. -/
def StepProgress.update (row : StepProgress) (c : CoverageDeclaration) (budget : Option Int) : StepProgress where
  analysisMode := some c.analysisMode
  dataBudgetTokens := budget.or row.dataBudgetTokens
  coverageRate := some c.dataCoverageRate
  llmReadRate := some c.llmReadRate
  isSampled := c.isSampled
  modeReason := some c.modeReason

/-- The data do not exceed the budget: 4 characters for a token here. -/
def Fits (step : PlanStep) (text : List Char) : Prop :=
  ((text.length / 4 : Nat) : Int) ≤ calculateBudget step.estimatedTokens

instance (step : PlanStep) (text : List Char) : Decidable (Fits step text) := inferInstanceAs (Decidable (_ ≤ _))

/-- The chunks of data over the budget. -/
def chunksOf (step : PlanStep) (text : List Char) : List Chunk :=
  chunkData text (calculateBudget step.estimatedTokens)

/-- `_execute_llm_step`. There is no text where the run is gone; `succeeds` says whether the model call with an index
succeeds. -/
def executeLlmStep (step : PlanStep) (dataText : Option (List Char)) (succeeds : Nat → Bool) (row : StepProgress) :
    Option CoverageDeclaration × StepProgress :=
  match dataText with
  | none => (none, row)
  | some text =>
    let profile : DataProfile := {}
    let (mode, reason) := analyzeStep step profile
    let budget := calculateBudget step.estimatedTokens
    if ¬ Fits step text then
      let chunks := chunksOf step text
      let successful := chunks.countP (fun chunk => succeeds chunk.index)
      let coverage := computeCoverage step chunks profile.totalRecords mode successful
      (some coverage, row.update coverage (some budget))
    else if succeeds 0 then
      let coverage : CoverageDeclaration :=
        { analysisMode := mode, dataCoverageRate := 1, llmReadRate := 1, modeReason := reason }
      (some coverage, row.update coverage (some budget))
    else (none, row)

/-- `_execute_step` for the method `llm`: the status and the progress that it leaves in the row, and the declaration it
returns. -/
def executeStepLlm (step : PlanStep) (dataText : Option (List Char)) (succeeds : Nat → Bool) (row : StepProgress) :
    StepStatus × StepProgress × Option CoverageDeclaration :=
  match executeLlmStep step dataText succeeds row with
  | (some coverage, row') => ((executeStep .coverage).1, row'.update coverage none, some coverage)
  | (none, row') => ((executeStep .nothing).1, row', none)

/-! ## Honesty -/

/-- The number of model calls that are made for the data. -/
def modelCalls (step : PlanStep) (text : List Char) : Nat :=
  if Fits step text then 1 else (chunksOf step text).length

/-- The fraction of the data's chunks whose model call succeeds; 1 where there is a single direct call. -/
def readFraction (step : PlanStep) (text : List Char) (succeeds : Nat → Bool) : ℚ :=
  if Fits step text then 1
  else (chunksOf step text).countP (fun chunk => succeeds chunk.index) / (chunksOf step text).length

/-- What an LLM step declares is what has been read. -/
structure Honest (step : PlanStep) (text : List Char) (succeeds : Nat → Bool) (row : StepProgress) : Prop where
  returned : ∀ c, (executeStepLlm step (some text) succeeds row).2.2 = some c →
    c.dataCoverageRate = readFraction step text succeeds ∧ c.llmReadRate = readFraction step text succeeds
  stored : ∀ c, (executeStepLlm step (some text) succeeds row).2.2 = some c →
    (executeStepLlm step (some text) succeeds row).2.1.coverageRate = some (readFraction step text succeeds) ∧
    (executeStepLlm step (some text) succeeds row).2.1.llmReadRate = some (readFraction step text succeeds)
  failed : (∀ i, i < modelCalls step text → succeeds i = false) →
    (executeStepLlm step (some text) succeeds row).1 = .failed

/-- The routing finds a mode in which the data are read as a whole. -/
def ReadsAll (step : PlanStep) : Prop :=
  if step.requiresFull then step.perRecordSemantic ∨ step.crossRecordReasoning else step.method ≠ "mixed"

theorem map_index_chunkLoop (size fuel n idx : Nat) (data : List Char) :
    (chunkLoop size fuel n idx data).map Chunk.index =
      List.range' n (chunkLoop size fuel n idx data).length := by
  induction fuel generalizing n idx data with
  | zero => rfl
  | succ fuel ih =>
    cases data with
    | nil => rfl
    | cons c cs => rw [chunkLoop, List.map_cons, ih, List.length_cons, List.range'_succ]

section Over

variable {step : PlanStep} {text : List Char} {succeeds : Nat → Bool} {row : StepProgress}

/-- The declaration for data over the budget. -/
def overCoverage (step : PlanStep) (text : List Char) (succeeds : Nat → Bool) : CoverageDeclaration :=
  computeCoverage step (chunksOf step text) 0 (analyzeStep step {}).1
    ((chunksOf step text).countP (fun chunk => succeeds chunk.index))

/-- **Data over the budget**: the step succeeds, whatever the model calls come to. -/
theorem executeStepLlm_over (h : ¬ Fits step text) :
    executeStepLlm step (some text) succeeds row =
      (.succeeded,
        (row.update (overCoverage step text succeeds) (some (calculateBudget step.estimatedTokens))).update
          (overCoverage step text succeeds) none,
        some (overCoverage step text succeeds)) := by
  unfold executeStepLlm executeLlmStep
  simp only [if_pos h]
  rfl

/-- The declaration for data within the budget. -/
def directCoverage (step : PlanStep) : CoverageDeclaration where
  analysisMode := (analyzeStep step {}).1
  dataCoverageRate := 1
  llmReadRate := 1
  modeReason := (analyzeStep step {}).2

/-- **Data within the budget**: the step succeeds with its one model call. -/
theorem executeStepLlm_fits (h : Fits step text) :
    executeStepLlm step (some text) succeeds row =
      if succeeds 0 then
        (.succeeded,
          (row.update (directCoverage step) (some (calculateBudget step.estimatedTokens))).update
            (directCoverage step) none,
          some (directCoverage step))
      else (.failed, row, none) := by
  unfold executeStepLlm executeLlmStep
  simp only [if_neg (not_not.mpr h)]
  cases succeeds 0 with
  | true => rfl
  | false => rfl

theorem two_chunksOf (h : ¬ Fits step text) : 2 ≤ (chunksOf step text).length := by
  apply two_chunks
  apply charsPerChunk_lt (calculateBudget_nonneg _)
  unfold Fits at h
  omega

theorem countP_eq_zero (h : ¬ Fits step text) :
    (chunksOf step text).countP (fun chunk => succeeds chunk.index) = 0 ↔
      ∀ i, i < modelCalls step text → succeeds i = false := by
  have hindex : (chunksOf step text).map Chunk.index = List.range' 0 (chunksOf step text).length :=
    map_index_chunkLoop _ _ _ _ _
  unfold modelCalls
  rw [if_neg h, List.countP_eq_zero]
  constructor
  · intro hnone i hi
    have hmem : i ∈ (chunksOf step text).map Chunk.index := by
      rw [hindex, List.mem_range'_1]
      omega
    obtain ⟨chunk, hchunk, rfl⟩ := List.mem_map.mp hmem
    simpa using hnone chunk hchunk
  · intro hnone chunk hchunk
    have hmem : chunk.index ∈ (chunksOf step text).map Chunk.index := List.mem_map.mpr ⟨chunk, hchunk, rfl⟩
    rw [hindex, List.mem_range'_1] at hmem
    simp [hnone chunk.index (by omega)]

/-- **The rates of a declaration**, against the fraction `s / n` that has been read. -/
theorem rates_iff (step : PlanStep) (chunks : List Chunk) {n s : Nat} (hn : 2 ≤ n) :
    (((computeCoverage step chunks 0 (analyzeStep step {}).1 s).dataCoverageRate = (s : ℚ) / n ∧
      (computeCoverage step chunks 0 (analyzeStep step {}).1 s).llmReadRate = (s : ℚ) / n) ∧ s ≠ 0) ↔
      ReadsAll step ∧ s = n := by
  have hn' : (n : ℚ) ≠ 0 := by
    rw [ne_eq, Nat.cast_eq_zero]
    omega
  -- a rate of 1 is right when everything has been read
  have hone : (1 : ℚ) = s / n ↔ s = n := by
    rw [eq_div_iff hn', one_mul, Nat.cast_inj]
    exact eq_comm
  rw [analyzeStep_empty]
  unfold ReadsAll
  by_cases hfull : step.requiresFull = true
  · rw [if_pos hfull, if_pos hfull]
    by_cases hread : (step.perRecordSemantic || step.crossRecordReasoning) = true
    · rw [if_pos hread]
      have hread' : step.perRecordSemantic = true ∨ step.crossRecordReasoning = true := by simpa using hread
      simp only [computeCoverage, hone, and_self]
      exact ⟨fun h => ⟨hread', h.1⟩, fun h => ⟨h.2, by omega⟩⟩
    · -- 1 of the data and 0 of the reading
      rw [if_neg hread]
      have hread' : ¬ (step.perRecordSemantic = true ∨ step.crossRecordReasoning = true) := by simpa using hread
      simp only [computeCoverage]
      refine ⟨fun h => ?_, fun h => absurd h.1 hread'⟩
      have hbad : (1 : ℚ) = 0 := h.1.1.trans h.1.2.symm
      norm_num at hbad
  · rw [if_neg hfull, if_neg hfull]
    by_cases hmixed : step.method = "mixed"
    · rw [if_pos hmixed]
      simp only [computeCoverage]
      refine ⟨fun h => ?_, fun h => absurd hmixed h.1⟩
      have hbad : (1 : ℚ) = 3 / 4 := h.1.1.trans h.1.2.symm
      norm_num at hbad
    · -- there are no records to divide by: the rate is 1 as soon as a call has succeeded
      rw [if_neg hmixed]
      simp only [computeCoverage, and_self]
      have hrate : s ≠ 0 → min (1 : ℚ) ((s : ℚ) / (max 1 0 : Nat)) = 1 := by
        intro hs
        rw [min_eq_left_iff, Nat.max_zero, Nat.cast_one, div_one]
        exact Nat.one_le_cast.mpr (Nat.one_le_iff_ne_zero.mpr hs)
      constructor
      · rintro ⟨h, hs⟩
        rw [hrate hs, hone] at h
        exact ⟨hmixed, h⟩
      · rintro ⟨_, h⟩
        have hs : s ≠ 0 := by omega
        rw [hrate hs, hone]
        exact ⟨h, hs⟩

end Over

/-- **A step declares what has been read exactly when** its data fit the budget, or every chunk has been read in a mode
that reads the data as a whole. -/
theorem honest_iff (step : PlanStep) (text : List Char) (succeeds : Nat → Bool) (row : StepProgress) :
    Honest step text succeeds row ↔
      Fits step text ∨ (ReadsAll step ∧ ∀ chunk ∈ chunksOf step text, succeeds chunk.index = true) := by
  by_cases hfit : Fits step text
  · refine ⟨fun _ => .inl hfit, fun _ => ?_⟩
    have hfraction : readFraction step text succeeds = 1 := if_pos hfit
    have hrun : executeStepLlm step (some text) succeeds row = _ := executeStepLlm_fits hfit
    cases hcall : succeeds 0 with
    | true =>
      rw [hcall, if_pos rfl] at hrun
      constructor
      · intro c hc
        rw [hrun] at hc
        obtain rfl := Option.some.inj hc
        exact ⟨hfraction.symm, hfraction.symm⟩
      · intro c _
        rw [hrun, hfraction]
        exact ⟨rfl, rfl⟩
      · intro hnone
        have hfirst := hnone 0 (by rw [modelCalls, if_pos hfit]; exact Nat.one_pos)
        rw [hcall] at hfirst
        cases hfirst
    | false =>
      rw [hcall, if_neg Bool.false_ne_true] at hrun
      constructor
      · intro c hc
        rw [hrun] at hc
        cases hc
      · intro c hc
        rw [hrun] at hc
        cases hc
      · intro _
        rw [hrun]
  · have hn := two_chunksOf hfit
    have hfraction : readFraction step text succeeds = _ := if_neg hfit
    have hall : (∀ chunk ∈ chunksOf step text, succeeds chunk.index = true) ↔
        (chunksOf step text).countP (fun chunk => succeeds chunk.index) = (chunksOf step text).length :=
      List.countP_eq_length.symm
    rw [hall, ← rates_iff step (chunksOf step text) hn, or_iff_right hfit]
    constructor
    · intro h
      refine ⟨hfraction ▸ h.returned _ (by rw [executeStepLlm_over hfit]; rfl), fun hzero => ?_⟩
      have hstatus := h.failed ((countP_eq_zero hfit).mp hzero)
      rw [executeStepLlm_over hfit] at hstatus
      cases hstatus
    · rintro ⟨⟨hdata, hread⟩, hsome⟩
      constructor
      · intro c hc
        rw [executeStepLlm_over hfit] at hc
        obtain rfl := Option.some.inj hc
        rw [hfraction]
        exact ⟨hdata, hread⟩
      · intro c _
        rw [executeStepLlm_over hfit, hfraction]
        exact ⟨congrArg some hdata, congrArg some hread⟩
      · intro hnone
        exact absurd ((countP_eq_zero hfit).mpr hnone) hsome

/-- A step with an estimate that leaves no budget, so that four characters make two chunks. -/
def tight : PlanStep := { estimatedTokens := 117000 }

/-- **Half of the data has been read, and all of it is declared.** -/
theorem not_honest : ¬ Honest tight ['a', 'b', 'c', 'd'] (fun i => i == 0) {} := by
  intro h
  have hover : ¬ Fits tight ['a', 'b', 'c', 'd'] := by decide
  have hrate := (h.returned _ (by rw [executeStepLlm_over hover])).1
  have hchunks : readFraction tight ['a', 'b', 'c', 'd'] (fun i => i == 0) = 1 / 2 := by
    rw [readFraction, if_neg hover]
    rfl
  rw [hchunks] at hrate
  have hdeclared : (overCoverage tight ['a', 'b', 'c', 'd'] (fun i => i == 0)).dataCoverageRate = 1 := rfl
  rw [hdeclared] at hrate
  norm_num at hrate

end Irip.Execution
