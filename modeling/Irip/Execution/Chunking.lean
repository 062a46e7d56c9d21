import Irip.Execution.Coverage

/-!
# `Execution.Chunking` — chunks by any strategy

Besides cutting a text after so many characters the router can keep its lines together. It fills a chunk with lines as
long as their estimates, added up, stay within nine tenths of the budget.
-/

namespace Irip.Execution

/-! ## Records -/

/-- The values of `ChunkStrategy`. -/
inductive ChunkStrategy where
  | tokenBudget
  | recordCount
  | businessLogic
deriving DecidableEq, Repr

abbrev Line := List Char

/-- `"\n".join(lines)`. -/
def joinLines (lines : List Line) : List Char := ['\n'].intercalate lines

/-- The variables of `_chunk_by_record_count`. -/
structure RecordState where
  chunks : List Chunk := []
  currentLines : List Line := []
  currentTokens : Nat := 0
  chunkIndex : Nat := 0
  startLine : Nat := 0

/-- The chunk that the current lines make. -/
def RecordState.chunk (st : RecordState) (stop : Nat) : Chunk where
  index := st.chunkIndex
  content := joinLines st.currentLines
  tokenCount := st.currentTokens
  recordRange := (st.startLine, stop)

/-- The body of the loop over the lines. -/
def recordStep (effectiveBudget : Int) (st : RecordState) (x : Line × Nat) : RecordState :=
  let lineTokens := estimateTokens x.1
  let st :=
    if ((st.currentTokens + lineTokens : Nat) : Int) > effectiveBudget ∧ st.currentLines ≠ [] then
      { chunks := st.chunks ++ [st.chunk x.2], chunkIndex := st.chunkIndex + 1, startLine := x.2 }
    else st
  { st with currentLines := st.currentLines ++ [x.1], currentTokens := st.currentTokens + lineTokens }

def chunkByRecordCount (data : List Char) (budget : Int) : List Chunk :=
  let lines := data.splitOn '\n'
  let st := lines.zipIdx.foldl (recordStep (budget * 9 / 10)) {}
  if st.currentLines ≠ [] then st.chunks ++ [st.chunk lines.length] else st.chunks

/-- `chunk_data`. -/
def chunkDataBy (strategy : ChunkStrategy) (data : List Char) (budget : Int) : List Chunk :=
  if data = [] then []
  else
    match strategy with
    | .recordCount => chunkByRecordCount data budget
    | .businessLogic => chunkData data budget
    | .tokenBudget => chunkData data budget

/-! ## Groups -/

/-- The lines that still fit after so many tokens, and the rest. -/
def fill (effectiveBudget : Int) : Nat → List Line → List Line × List Line
  | _, [] => ([], [])
  | tokens, line :: lines =>
    if ((tokens + estimateTokens line : Nat) : Int) > effectiveBudget then ([], line :: lines)
    else
      let (group, rest) := fill effectiveBudget (tokens + estimateTokens line) lines
      (line :: group, rest)

theorem fill_append (effectiveBudget : Int) (tokens : Nat) (lines : List Line) :
    (fill effectiveBudget tokens lines).1 ++ (fill effectiveBudget tokens lines).2 = lines := by
  induction lines generalizing tokens with
  | nil => rfl
  | cons line lines ih =>
    unfold fill
    split
    · rfl
    · exact congrArg (line :: ·) (ih _)

theorem length_fill (effectiveBudget : Int) (tokens : Nat) (lines : List Line) :
    (fill effectiveBudget tokens lines).2.length ≤ lines.length := by
  have happend := congrArg List.length (fill_append effectiveBudget tokens lines)
  rw [List.length_append] at happend
  omega

/-- The lines in groups: a first line, and those after it that still fit. -/
def groups (effectiveBudget : Int) : List Line → List (List Line)
  | [] => []
  | line :: lines =>
    (line :: (fill effectiveBudget (estimateTokens line) lines).1) ::
      groups effectiveBudget (fill effectiveBudget (estimateTokens line) lines).2
termination_by lines => lines.length
decreasing_by exact Nat.lt_succ_of_le (length_fill _ _ _)

/-- One chunk for each group. -/
def recordChunks : Nat → Nat → List (List Line) → List Chunk
  | _, _, [] => []
  | n, start, group :: groups =>
    { index := n, content := joinLines group, tokenCount := (group.map estimateTokens).sum,
      recordRange := (start, start + group.length) } :: recordChunks (n + 1) (start + group.length) groups

/-- The chunks when the loop has come to its end. -/
def RecordState.finish (st : RecordState) (stop : Nat) : List Chunk :=
  if st.currentLines ≠ [] then st.chunks ++ [st.chunk stop] else st.chunks

section Groups

variable {effectiveBudget : Int}

theorem finish_foldl (lines : List Line) (st : RecordState) (hlines : st.currentLines ≠ [])
    (htokens : st.currentTokens = (st.currentLines.map estimateTokens).sum) :
    ((lines.zipIdx (st.startLine + st.currentLines.length)).foldl (recordStep effectiveBudget) st).finish
        (st.startLine + st.currentLines.length + lines.length)
      = st.chunks ++ recordChunks st.chunkIndex st.startLine
          ((st.currentLines ++ (fill effectiveBudget st.currentTokens lines).1) ::
            groups effectiveBudget (fill effectiveBudget st.currentTokens lines).2) := by
  induction lines generalizing st with
  | nil =>
    have hfill : fill effectiveBudget st.currentTokens [] = ([], []) := rfl
    rw [hfill, groups, List.append_nil]
    show st.finish (st.startLine + st.currentLines.length) = _
    unfold RecordState.finish RecordState.chunk
    rw [if_pos hlines, htokens]
    rfl
  | cons line lines ih =>
    rw [List.zipIdx_cons, List.foldl_cons]
    by_cases hfull : ((st.currentTokens + estimateTokens line : Nat) : Int) > effectiveBudget
    · -- the group ends here, and the line begins the next one
      have hfill : fill effectiveBudget st.currentTokens (line :: lines) = ([], line :: lines) := by
        rw [fill, if_pos hfull]
      have hstep : recordStep effectiveBudget st (line, st.startLine + st.currentLines.length)
          = { chunks := st.chunks ++ [st.chunk (st.startLine + st.currentLines.length)], currentLines := [line],
              currentTokens := estimateTokens line, chunkIndex := st.chunkIndex + 1,
              startLine := st.startLine + st.currentLines.length } := by
        unfold recordStep
        simp only [hfull, hlines, ne_eq, not_false_eq_true, and_self, if_true, List.nil_append, Nat.zero_add]
      have hnext := ih (recordStep effectiveBudget st (line, st.startLine + st.currentLines.length))
        (by rw [hstep]; exact List.cons_ne_nil _ _) (by rw [hstep]; simp)
      rw [hstep] at hnext ⊢
      rw [hfill, groups, List.append_nil]
      have hcount : st.startLine + st.currentLines.length + (line :: lines).length
          = st.startLine + st.currentLines.length + [line].length + lines.length := by
        simp only [List.length_cons, List.length_nil]
        omega
      rw [hcount]
      refine hnext.trans ?_
      rw [recordChunks, List.append_assoc]
      unfold RecordState.chunk
      rw [htokens]
      rfl
    · -- the line still fits
      have hfill : fill effectiveBudget st.currentTokens (line :: lines)
          = (line :: (fill effectiveBudget (st.currentTokens + estimateTokens line) lines).1,
              (fill effectiveBudget (st.currentTokens + estimateTokens line) lines).2) := by
        rw [fill, if_neg hfull]
      have hstep : recordStep effectiveBudget st (line, st.startLine + st.currentLines.length)
          = { st with currentLines := st.currentLines ++ [line],
                      currentTokens := st.currentTokens + estimateTokens line } := by
        unfold recordStep
        simp only [hfull, false_and, if_false]
      have hnext := ih (recordStep effectiveBudget st (line, st.startLine + st.currentLines.length))
        (by rw [hstep]; simp) (by rw [hstep]; simp [htokens])
      rw [hstep] at hnext ⊢
      rw [hfill]
      simp only [List.length_append, List.length_cons, List.length_nil, List.append_assoc, List.cons_append,
        List.nil_append] at hnext ⊢
      rw [← hnext]
      have hcount : st.startLine + (st.currentLines.length + 1) + lines.length
          = st.startLine + st.currentLines.length + (lines.length + 1) := by omega
      rw [hcount, Nat.add_assoc]

/-- **The loop makes a chunk of each group.** -/
theorem chunkByRecordCount_eq (data : List Char) (budget : Int) :
    chunkByRecordCount data budget = recordChunks 0 0 (groups (budget * 9 / 10) (data.splitOn '\n')) := by
  have hcons : data.splitOn '\n' ≠ [] := List.splitOn_ne_nil _ _
  show ((data.splitOn '\n').zipIdx.foldl (recordStep (budget * 9 / 10)) {}).finish (data.splitOn '\n').length = _
  cases hlines : data.splitOn '\n' with
  | nil => exact absurd hlines hcons
  | cons line lines =>
    have hstep : recordStep (budget * 9 / 10) {} (line, 0)
        = { currentLines := [line], currentTokens := estimateTokens line } := by
      unfold recordStep
      simp
    rw [List.zipIdx_cons, List.foldl_cons, hstep]
    have hrest := @finish_foldl (budget * 9 / 10) lines
      { currentLines := [line], currentTokens := estimateTokens line } (List.cons_ne_nil _ _) (by simp)
    rw [groups]
    have hcount : (line :: lines).length = 0 + [line].length + lines.length := by
      simp only [List.length_cons, List.length_nil]
      omega
    rw [hcount]
    exact hrest

end Groups

/-! ## Chunks -/

/-- Ranges that lead from `a` to `b` without a gap, none of them empty. -/
def Consecutive : Nat → Nat → List (Nat × Nat) → Prop
  | a, b, [] => a = b
  | a, b, r :: rs => r.1 = a ∧ r.1 < r.2 ∧ Consecutive r.2 b rs

/-- The records of a text: its lines, or else its characters. -/
def recordTotal (strategy : ChunkStrategy) (data : List Char) : Nat :=
  if data = [] then 0 else if strategy = .recordCount then (data.splitOn '\n').length else data.length

/-- The chunks put together again. -/
def joinChunks (strategy : ChunkStrategy) (chunks : List Chunk) : List Char :=
  if strategy = .recordCount then joinLines (chunks.map Chunk.content) else chunks.flatMap Chunk.content

/-- The chunks are numbered from zero, cover the records one after another, make up the text, and stay within the budget
where they are cut by it or hold more than one record. -/
structure Chunked (strategy : ChunkStrategy) (data : List Char) (budget : Int) (chunks : List Chunk) : Prop where
  indexes : chunks.map Chunk.index = List.range chunks.length
  ranges : Consecutive 0 (recordTotal strategy data) (chunks.map Chunk.recordRange)
  lossless : joinChunks strategy chunks = data
  budgeted : ∀ c ∈ chunks, strategy ≠ .recordCount ∨ c.recordRange.1 + 1 < c.recordRange.2 →
    (estimateTokens c.content : Int) ≤ budget

section Chunks

variable {budget : Int}

theorem chunkLoop_spec {size : Nat} (hsize : 0 < size) (fuel n idx : Nat) (data : List Char)
    (hfuel : data.length ≤ fuel) :
    (chunkLoop size fuel n idx data).map Chunk.index = List.range' n (chunkLoop size fuel n idx data).length ∧
    Consecutive idx (idx + data.length) ((chunkLoop size fuel n idx data).map Chunk.recordRange) ∧
    ∀ c ∈ chunkLoop size fuel n idx data, c.content.length ≤ size := by
  induction fuel generalizing n idx data with
  | zero =>
    rw [List.eq_nil_of_length_eq_zero (Nat.le_zero.mp hfuel)]
    exact ⟨rfl, rfl, List.forall_mem_nil _⟩
  | succ fuel ih =>
    cases data with
    | nil => exact ⟨rfl, rfl, List.forall_mem_nil _⟩
    | cons a as =>
      have hlength : ((a :: as).take size).length + ((a :: as).drop size).length = (a :: as).length := by
        rw [← List.length_append, List.take_append_drop]
      have hpos : 0 < ((a :: as).take size).length := by
        rw [List.length_take, List.length_cons]
        omega
      obtain ⟨hindexes, hranges, hsizes⟩ := ih (n + 1) (idx + ((a :: as).take size).length)
        ((a :: as).drop size) (by omega)
      rw [Nat.add_assoc, hlength] at hranges
      refine ⟨?_, ?_, fun c hc => ?_⟩
      · rw [chunkLoop, List.map_cons, List.length_cons, List.range'_succ, hindexes]
      · rw [chunkLoop, List.map_cons]
        refine ⟨rfl, ?_, hranges⟩
        show idx < idx + ((a :: as).take size).length
        omega
      · rw [chunkLoop] at hc
        rcases List.mem_cons.mp hc with rfl | hc
        · exact List.length_take_le _ _
        · exact hsizes c hc

theorem estimate_le_budget (hbudget : 2 ≤ budget) {text : List Char} (h : text.length ≤ charsPerChunk budget) :
    (estimateTokens text : Int) ≤ budget := by
  unfold estimateTokens
  unfold charsPerChunk at h
  dsimp only at h
  split
  · omega
  · split at h <;> split at h <;> omega

theorem chunked_chunkData (hbudget : 2 ≤ budget) {strategy : ChunkStrategy} (hstrategy : strategy ≠ .recordCount)
    (data : List Char) : Chunked strategy data budget (chunkDataBy strategy data budget) := by
  have hchunks : chunkDataBy strategy data budget = chunkData data budget := by
    unfold chunkDataBy
    split
    · next hnil =>
        rw [hnil]
        rfl
    · cases strategy with
      | recordCount => exact absurd rfl hstrategy
      | tokenBudget => rfl
      | businessLogic => rfl
  have htotal : recordTotal strategy data = 0 + data.length := by
    unfold recordTotal
    rw [if_neg hstrategy]
    split
    · next hnil =>
        rw [hnil]
        rfl
    · exact (Nat.zero_add _).symm
  obtain ⟨hindexes, hranges, hsizes⟩ := chunkLoop_spec (charsPerChunk_pos budget) data.length 0 0 data (Nat.le_refl _)
  rw [hchunks]
  refine ⟨?_, ?_, ?_, fun c hc _ => estimate_le_budget hbudget (hsizes c hc)⟩
  · rw [List.range_eq_range']
    exact hindexes
  · rw [htotal]
    exact hranges
  · unfold joinChunks
    rw [if_neg hstrategy]
    exact join_chunkData data budget

/-! ### Chunks of records -/

theorem joinLines_append {l m : List Line} (hl : l ≠ []) (hm : m ≠ []) :
    joinLines (l ++ m) = joinLines l ++ '\n' :: joinLines m := by
  unfold joinLines
  induction l with
  | nil => exact absurd rfl hl
  | cons line l ih =>
    cases l with
    | nil =>
      rw [List.cons_append, List.nil_append, List.intercalate_cons_of_ne_nil hm, List.intercalate_singleton]
      simp
    | cons line' l =>
      rw [List.cons_append, List.intercalate_cons_of_ne_nil (by simp), ih (List.cons_ne_nil _ _),
        List.intercalate_cons_of_ne_nil (List.cons_ne_nil _ _)]
      simp

theorem length_joinLines (lines : List Line) :
    (joinLines lines).length = (lines.map List.length).sum + (lines.length - 1) := by
  induction lines with
  | nil => rfl
  | cons line lines ih =>
    cases lines with
    | nil =>
      unfold joinLines
      rw [List.intercalate_singleton]
      simp
    | cons line' lines =>
      have happend := joinLines_append (List.cons_ne_nil line []) (List.cons_ne_nil line' lines)
      have hsingle : joinLines [line] = line := List.intercalate_singleton
      rw [List.cons_append, List.nil_append] at happend
      rw [happend, hsingle, List.length_append, List.length_cons, ih]
      simp only [List.map_cons, List.sum_cons, List.length_cons]
      omega

variable {effectiveBudget : Int}

theorem flatten_groups (effectiveBudget : Int) (lines : List Line) : (groups effectiveBudget lines).flatten = lines := by
  induction lines using groups.induct effectiveBudget with
  | case1 =>
    rw [groups]
    rfl
  | case2 line lines ih =>
    rw [groups, List.flatten_cons, ih, List.cons_append, fill_append]

theorem groups_ne_nil {lines : List Line} {g : List Line} (hg : g ∈ groups effectiveBudget lines) : g ≠ [] := by
  induction lines using groups.induct effectiveBudget with
  | case1 =>
    rw [groups] at hg
    exact absurd hg List.not_mem_nil
  | case2 line lines ih =>
    rw [groups] at hg
    rcases List.mem_cons.mp hg with rfl | hg
    · exact List.cons_ne_nil _ _
    · exact ih hg

theorem joinLines_flatten {gs : List (List Line)} (hgs : ∀ g ∈ gs, g ≠ []) :
    joinLines (gs.map joinLines) = joinLines gs.flatten := by
  induction gs with
  | nil => rfl
  | cons g gs ih =>
    have hrest := ih (fun g' hg' => hgs g' (List.mem_cons_of_mem _ hg'))
    cases gs with
    | nil =>
      rw [List.map_cons, List.map_nil, List.flatten_cons, List.flatten_nil, List.append_nil]
      exact List.intercalate_singleton
    | cons g' gs =>
      have hne : (g' :: gs).flatten ≠ [] := by
        rw [List.flatten_cons]
        exact List.append_ne_nil_of_left_ne_nil (hgs g' (by simp)) _
      rw [List.flatten_cons, joinLines_append (hgs g List.mem_cons_self) hne, ← hrest]
      have happend := joinLines_append (List.cons_ne_nil (joinLines g) [])
        (List.cons_ne_nil (joinLines g') (gs.map joinLines))
      have hsingle : joinLines [joinLines g] = joinLines g := List.intercalate_singleton
      rw [List.cons_append, List.nil_append, hsingle] at happend
      exact happend

theorem recordChunks_spec (n start : Nat) (gs : List (List Line)) (hgs : ∀ g ∈ gs, g ≠ []) :
    (recordChunks n start gs).map Chunk.index = List.range' n (recordChunks n start gs).length ∧
    Consecutive start (start + gs.flatten.length) ((recordChunks n start gs).map Chunk.recordRange) ∧
    (recordChunks n start gs).map Chunk.content = gs.map joinLines := by
  induction gs generalizing n start with
  | nil => exact ⟨rfl, rfl, rfl⟩
  | cons g gs ih =>
    obtain ⟨hindexes, hranges, hcontents⟩ := ih (n + 1) (start + g.length)
      (fun g' hg' => hgs g' (List.mem_cons_of_mem _ hg'))
    have hpos := List.length_pos_iff.mpr (hgs g List.mem_cons_self)
    rw [Nat.add_assoc, ← List.length_append, ← List.flatten_cons] at hranges
    refine ⟨?_, ?_, ?_⟩
    · rw [recordChunks, List.map_cons, List.length_cons, List.range'_succ, hindexes]
    · rw [recordChunks, List.map_cons]
      refine ⟨rfl, ?_, hranges⟩
      show start < start + g.length
      omega
    · rw [recordChunks, List.map_cons, hcontents, List.map_cons]

theorem mem_recordChunks_iff {P : List Char → Prop} (n start : Nat) (gs : List (List Line)) :
    (∀ c ∈ recordChunks n start gs, c.recordRange.1 + 1 < c.recordRange.2 → P c.content) ↔
      ∀ g ∈ gs, 1 < g.length → P (joinLines g) := by
  induction gs generalizing n start with
  | nil => exact iff_of_true (List.forall_mem_nil _) (List.forall_mem_nil _)
  | cons g gs ih =>
    rw [recordChunks, List.forall_mem_cons, List.forall_mem_cons, ih]
    refine and_congr_left' (imp_congr_left ?_)
    show start + 1 < start + g.length ↔ _
    omega

theorem estimate_le_iff (hbudget : 2 ≤ budget) (text : List Char) :
    (estimateTokens text : Int) ≤ budget ↔ 2 * (text.length : Int) < 7 * (budget + 1) := by
  unfold estimateTokens
  split
  · next hnil =>
      rw [hnil, List.length_nil]
      omega
  · omega

/-- **When the chunks are in order**: when the strategy cuts by token budget, or no group of more than one line, with the
newlines between the lines, is so long that its estimate exceeds the budget. -/
theorem chunked_iff (strategy : ChunkStrategy) (data : List Char) (hbudget : 2 ≤ budget) :
    Chunked strategy data budget (chunkDataBy strategy data budget) ↔
      (strategy = .recordCount → ∀ g ∈ groups (budget * 9 / 10) (data.splitOn '\n'), 1 < g.length →
        2 * (((g.map List.length).sum + (g.length - 1) : Nat) : Int) < 7 * (budget + 1)) := by
  by_cases hstrategy : strategy = .recordCount
  · subst hstrategy
    rw [imp_iff_right rfl]
    by_cases hnil : data = []
    · subst hnil
      have hgroups : groups (budget * 9 / 10) (([] : List Char).splitOn '\n') = [[[]]] := by
        rw [List.splitOn_nil, groups, fill, groups]
      rw [hgroups]
      refine iff_of_true ⟨rfl, rfl, rfl, List.forall_mem_nil _⟩ (fun g hg hlong => ?_)
      rw [List.mem_singleton.mp hg] at hlong
      exact absurd hlong (Nat.lt_irrefl 1)
    · have hchunks : chunkDataBy .recordCount data budget
          = recordChunks 0 0 (groups (budget * 9 / 10) (data.splitOn '\n')) := by
        rw [← chunkByRecordCount_eq]
        unfold chunkDataBy
        rw [if_neg hnil]
      have hgs := fun g (hg : g ∈ groups (budget * 9 / 10) (data.splitOn '\n')) => groups_ne_nil hg
      obtain ⟨hindexes, hranges, hcontents⟩ := recordChunks_spec 0 0 _ hgs
      rw [flatten_groups, Nat.zero_add] at hranges
      have hbudgeted := mem_recordChunks_iff (P := fun text => (estimateTokens text : Int) ≤ budget) 0 0
        (groups (budget * 9 / 10) (data.splitOn '\n'))
      have hcondition : (∀ g ∈ groups (budget * 9 / 10) (data.splitOn '\n'), 1 < g.length →
            (estimateTokens (joinLines g) : Int) ≤ budget) ↔
          ∀ g ∈ groups (budget * 9 / 10) (data.splitOn '\n'), 1 < g.length →
            2 * (((g.map List.length).sum + (g.length - 1) : Nat) : Int) < 7 * (budget + 1) := by
        refine forall_congr' (fun g => forall_congr' (fun _ => forall_congr' (fun _ => ?_)))
        rw [estimate_le_iff hbudget, length_joinLines]
      rw [hchunks, ← hcondition, ← hbudgeted]
      constructor
      · exact fun h c hc hmany => h.budgeted c hc (.inr hmany)
      · intro h
        refine ⟨?_, ?_, ?_, fun c hc hmany => h c hc (hmany.resolve_left (fun hne => hne rfl))⟩
        · rw [List.range_eq_range']
          exact hindexes
        · unfold recordTotal
          rw [if_neg hnil, if_pos rfl]
          exact hranges
        · unfold joinChunks
          rw [if_pos rfl, hcontents, joinLines_flatten hgs, flatten_groups]
          exact List.intercalate_splitOn '\n'
  · exact iff_of_true (chunked_chunkData hbudget hstrategy data) (fun h => absurd h hstrategy)

/-- A text without a newline is in order by any strategy. -/
theorem chunked_one_line : Chunked .recordCount ['a', 'b'] 2 (chunkDataBy .recordCount ['a', 'b'] 2) :=
  (chunked_iff .recordCount ['a', 'b'] (by decide)).mpr (by
    intro _ g hg hlong
    have hgroups : groups (2 * 9 / 10) (['a', 'b'].splitOn '\n') = [[['a', 'b']]] := by
      have hlines : ['a', 'b'].splitOn '\n' = [['a', 'b']] := by decide
      rw [hlines, groups, fill, groups]
    rw [hgroups, List.mem_singleton] at hg
    rw [hg] at hlong
    exact absurd hlong (Nat.lt_irrefl 1))

/-- Eleven newlines make twelve empty lines, estimated at nothing one by one and at three tokens as one chunk. -/
theorem empty_lines_exceed : ¬ ∀ (strategy : ChunkStrategy) (data : List Char) (budget : Int), 2 ≤ budget →
    Chunked strategy data budget (chunkDataBy strategy data budget) := by
  intro hall
  have hbudgeted := (hall .recordCount (List.replicate 11 '\n') 2 (by decide)).budgeted
  have hchunk : chunkDataBy .recordCount (List.replicate 11 '\n') 2
      = [{ index := 0, content := List.replicate 11 '\n', tokenCount := 0, recordRange := (0, 12) }] := by rfl
  rw [hchunk] at hbudgeted
  have hestimate := hbudgeted _ List.mem_cons_self (.inr (by decide))
  exact absurd hestimate (by decide)

end Chunks

end Irip.Execution
