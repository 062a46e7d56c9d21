import Irip.Conclusions.Service

/-!
# `Conclusions.Labels` — the provenance label of a saved candidate

`save_candidates` calls a conclusion original when its texts are the candidate's own. One function compares the
texts, another picks those that are saved, and they treat an empty statement and a missing scope differently.
-/

namespace Irip.Conclusions

/-! ## Records -/

/-- A conclusion of `save_candidates`, with the candidate and the selection it was made of. -/
structure Saved where
  selection : CandidateSelection
  candidate : ResearchConclusionCandidate
  conclusion : ResearchConclusion
  revision : ResearchConclusionRevision

/-- What is known of a call by its log. -/
structure Records where
  selections : List CandidateSelection -- still to come
  current : Option (CandidateSelection × ResearchConclusionCandidate) := none
  conclusion : Option ResearchConclusion := none
  saved : List Saved := []

abbrev Event := Prog.Event Op Res

/-- The candidates are looked up in the order of the selections; a conclusion is of the candidate that was looked up
last, and so is its revision. -/
def Records.read (s : Records) : Event → Records
  | ⟨.getCandidate _, found⟩ =>
    { s with selections := s.selections.tail, current := s.selections.head?.bind (fun x => found.map (fun c => (x, c))) }
  | ⟨.insertConclusion row, .ok ()⟩ => { s with conclusion := some row }
  | ⟨.insertRevision row, .ok ()⟩ =>
    match s.current, s.conclusion with
    | some (x, c), some k => { s with saved := s.saved ++ [⟨x, c, k, row⟩] }
    | _, _ => s
  | _ => s

/-- The records of a log. -/
def records (command : SaveCandidatesCommand) (log : List Event) : Records :=
  log.foldl Records.read { selections := command.selections }

/-- The conclusions a call has created, by its log. -/
def created (command : SaveCandidatesCommand) (log : List Event) : List Saved := (records command log).saved

/-- The execution of a call that has come so far as the log says, whatever the answers were. -/
def Executes (service : Service) (command : SaveCandidatesCommand) (log : List Event) : Prop :=
  ∃ q, Prog.Steps (Prog.logged (fun _ _ => True)) (saveCandidates service command, []) (q, log)

/-! ## Labels -/

/-- The revision has the texts of the candidate, up to surrounding space. -/
def SameText (r : ResearchConclusionRevision) (c : ResearchConclusionCandidate) : Prop :=
  strip r.statement = strip c.statement ∧ r.scope.map strip = c.scope.map strip ∧
    r.limitations.map strip = c.limitations.map strip

/-- The label says whether the texts are the candidate's own. -/
def Saved.Faithful (s : Saved) : Prop := s.conclusion.sourceType = .aiOriginal ↔ SameText s.revision s.candidate

/-- The label and the texts are those the service gives the candidate. -/
def Saved.Built (s : Saved) : Prop :=
  s.conclusion.sourceType = determineSourceType s.candidate s.selection ∧
    ∃ actorId, s.revision.statement = (savedRevision actorId s.candidate s.selection).statement ∧
      s.revision.scope = (savedRevision actorId s.candidate s.selection).scope ∧
      s.revision.limitations = (savedRevision actorId s.candidate s.selection).limitations

/-- A text is given, and it is not the original. -/
def Changes (text original : Option String) : Prop := ∃ t, text = some t ∧ original.map strip ≠ some (strip t)

/-- All that is changed is the statement, and it is emptied. -/
def Saved.OnlyEmptied (s : Saved) : Prop :=
  s.selection.editedStatement = some "" ∧ Changes s.selection.editedStatement (some s.candidate.statement) ∧
    ¬ Changes s.selection.editedScope s.candidate.scope ∧
    ¬ Changes s.selection.editedLimitations s.candidate.limitations

/-- All that is changed are texts the candidate does not have. -/
def Saved.OnlyAdded (s : Saved) : Prop :=
  ¬ Changes s.selection.editedStatement (some s.candidate.statement) ∧
    (Changes s.selection.editedScope s.candidate.scope ∨
      Changes s.selection.editedLimitations s.candidate.limitations) ∧
    (Changes s.selection.editedScope s.candidate.scope → s.candidate.scope = none) ∧
    (Changes s.selection.editedLimitations s.candidate.limitations → s.candidate.limitations = none)

/-- The edits are neither an emptied statement alone, nor only texts the candidate does not have. -/
def Saved.Recognizable (s : Saved) : Prop := ¬ s.OnlyEmptied ∧ ¬ s.OnlyAdded

section Texts

variable {text original : Option String}

theorem edited_iff : edited text original = true ↔ Changes text original ∧ original ≠ none := by
  unfold edited Changes
  cases text with
  | none => simp
  | some t =>
    cases original with
    | none => simp
    | some o =>
      have hcomm : strip t ≠ strip o ↔ strip o ≠ strip t := ne_comm
      simpa using hcomm

theorem or_same_iff : (text.or original).map strip = original.map strip ↔ ¬ Changes text original := by
  unfold Changes
  cases text with
  | none => simp
  | some t =>
    simp only [Option.some_or, Option.map_some, Option.some.injEq, exists_eq_left', not_not, ne_eq]
    exact eq_comm

theorem statement_same_iff {statement : String} :
    strip ((text.filter (fun s => s ≠ "")).getD statement) = strip statement ↔
      ¬ (Changes text (some statement) ∧ text ≠ some "") := by
  unfold Changes
  cases text with
  | none => simp
  | some t =>
    by_cases hempty : t = ""
    · simp [hempty, Option.filter]
    · have hcomm : strip t = strip statement ↔ strip statement = strip t := eq_comm
      simpa [hempty, Option.filter] using hcomm

end Texts

theorem determineSourceType_eq_iff {c : ResearchConclusionCandidate} {x : CandidateSelection} :
    determineSourceType c x = .aiOriginal ↔
      ¬ Changes x.editedStatement (some c.statement) ∧ (Changes x.editedScope c.scope → c.scope = none) ∧
        (Changes x.editedLimitations c.limitations → c.limitations = none) := by
  have hlabel : determineSourceType c x = .aiOriginal ↔
      ¬ (edited x.editedStatement (some c.statement) = true ∨ edited x.editedScope c.scope = true ∨
        edited x.editedLimitations c.limitations = true) := by
    unfold determineSourceType
    cases edited x.editedStatement (some c.statement) <;> cases edited x.editedScope c.scope <;>
      cases edited x.editedLimitations c.limitations <;> simp
  rw [hlabel, edited_iff, edited_iff, edited_iff]
  simp only [ne_eq, reduceCtorEq, not_false_eq_true, and_true, not_or, not_and, not_not]

/-- **When a label is faithful.** -/
theorem Saved.Built.faithful_iff_recognizable {s : Saved} (h : s.Built) : s.Faithful ↔ s.Recognizable := by
  obtain ⟨hlabel, actorId, hstatement, hscope, hlimitations⟩ := h
  have hsame : SameText s.revision s.candidate ↔
      ¬ (Changes s.selection.editedStatement (some s.candidate.statement) ∧ s.selection.editedStatement ≠ some "") ∧
        ¬ Changes s.selection.editedScope s.candidate.scope ∧
        ¬ Changes s.selection.editedLimitations s.candidate.limitations := by
    unfold SameText
    rw [hstatement, hscope, hlimitations]
    exact and_congr statement_same_iff (and_congr or_same_iff or_same_iff)
  unfold Saved.Faithful Saved.Recognizable Saved.OnlyEmptied Saved.OnlyAdded
  rw [hsame, hlabel, determineSourceType_eq_iff]
  tauto

/-! ## What a call creates -/

section Calls

variable {command : SaveCandidatesCommand}

theorem records_append (command : SaveCandidatesCommand) (log : List Event) (e : Event) :
    records command (log ++ [e]) = (records command log).read e := List.foldl_append

variable {candidate : ResearchConclusionCandidate} {s : Records} {log : List Event}

theorem read_revision {selection : CandidateSelection}
    {k : ResearchConclusion} (hcurrent : s.current = some (selection, candidate)) (hconclusion : s.conclusion = some k)
    (row : ResearchConclusionRevision) :
    s.read ⟨.insertRevision row, .ok ()⟩ = { s with saved := s.saved ++ [⟨selection, candidate, k, row⟩] } := by
  simp only [Records.read, hcurrent, hconclusion]

/-- Programs all of whose logs hold conclusions with the label and texts of their candidates, and that leave the
records as `P` says. -/
abbrev Labels {α : Type} (command : SaveCandidatesCommand) (P : Except Exn α → Records → Prop)
    (q : Prog Op Res Exn α) (log : List Event) : Prop :=
  Prog.Ok (Prog.logged (fun _ _ => True)) Eq (fun _ _ _ log' => ∀ s ∈ created command log', s.Built)
    (fun out log' => P out (records command log')) q log

theorem Labels.op {α : Type} {P : Except Exn α → Records → Prop} {o : Op} {k : Res o → Prog Op Res Exn α}
    {log : List Event}
    (h : ∀ r, (∀ s ∈ ((records command log).read ⟨o, r⟩).saved, s.Built) ∧ Labels command P (k r) (log ++ [⟨o, r⟩])) :
    Labels command P (.op o k) log := by
  rintro _ rfl r _ ⟨_, rfl⟩
  refine ⟨?_, (h r).2⟩
  show ∀ s ∈ (records command (log ++ [⟨o, r⟩])).saved, s.Built
  rw [records_append]
  exact (h r).1

theorem Labels.silent {α : Type} {P : Except Exn α → Records → Prop} {o : Op} {k : Res o → Prog Op Res Exn α}
    (hs : records command log = s) (hbuilt : ∀ x ∈ s.saved, x.Built) (hsilent : ∀ r, s.read ⟨o, r⟩ = s)
    (h : ∀ r log', records command log' = s → Labels command P (k r) log') : Labels command P (.op o k) log := by
  refine Labels.op fun r => ?_
  rw [hs, hsilent]
  refine ⟨hbuilt, h r _ ?_⟩
  rw [records_append, hs, hsilent]

theorem labels_ret {α : Type} {P : Except Exn α → Records → Prop} {a : α}
    (h : P (.ok a) (records command log)) : Labels command P (.ret a) log := by
  rintro _ rfl
  exact h

theorem labels_raise {α : Type} {P : Except Exn α → Records → Prop} {e : Exn}
    (h : P (.error e) (records command log)) : Labels command P (.raise e) log := by
  rintro _ rfl
  exact h

theorem labels_existingRef
    (hs : records command log = s) (hbuilt : ∀ x ∈ s.saved, x.Built) :
    Labels command (fun _ s' => s' = s) (existingRef candidate) log := by
  unfold existingRef
  split
  · refine Labels.silent hs hbuilt (fun _ => rfl) fun found log' hs' => ?_
    cases found with
    | none => exact labels_ret hs'
    | some c => exact Labels.silent hs' hbuilt (fun _ => rfl) fun _ log'' hs'' => labels_ret hs''
  · exact labels_ret hs

theorem labels_saveCandidate {workspaceId actorId : Uuid}
    {selection : CandidateSelection} (hs : records command log = s)
    (hcurrent : s.current = some (selection, candidate)) (hbuilt : ∀ x ∈ s.saved, x.Built) :
    Labels command (fun _ s' => s'.selections = s.selections ∧ ∀ x ∈ s'.saved, x.Built)
      (saveCandidate workspaceId actorId candidate selection) log := by
  refine Labels.silent hs hbuilt (fun _ => rfl) fun id log₁ hs₁ => ?_
  refine Labels.op fun inserted => ?_
  cases inserted with
  | error e =>
    rw [hs₁]
    refine ⟨hbuilt, labels_raise ?_⟩
    rw [records_append, hs₁]
    exact ⟨rfl, hbuilt⟩
  | ok u =>
    rw [hs₁]
    refine ⟨hbuilt, ?_⟩
    -- the conclusion is on record, with the label of the candidate
    have hs₂ := records_append command log₁
      ⟨.insertConclusion { savedConclusion workspaceId actorId candidate selection with id := id }, .ok ()⟩
    rw [hs₁] at hs₂
    refine Labels.silent hs₂ hbuilt (fun _ => rfl) fun revisionId log₃ hs₃ => ?_
    refine Labels.op fun written => ?_
    cases written with
    | error e =>
      rw [hs₃]
      refine ⟨hbuilt, labels_raise ?_⟩
      rw [records_append, hs₃]
      exact ⟨rfl, hbuilt⟩
    | ok u =>
      have hs₄ := records_append command log₃
        ⟨.insertRevision { savedRevision actorId candidate selection with id := revisionId, conclusionId := id },
          .ok ()⟩
      rw [hs₃] at hs₄ ⊢
      rw [read_revision (s := s.read ⟨.insertConclusion _, .ok ()⟩) hcurrent rfl] at hs₄ ⊢
      have hall : ∀ x ∈ s.saved ++ [Saved.mk selection candidate
          { savedConclusion workspaceId actorId candidate selection with id := id }
          { savedRevision actorId candidate selection with id := revisionId, conclusionId := id }], x.Built := by
        intro x hx
        rw [List.mem_append, List.mem_singleton] at hx
        rcases hx with hx | rfl
        · exact hbuilt x hx
        · exact ⟨rfl, actorId, rfl, rfl, rfl⟩
      refine ⟨hall, ?_⟩
      refine Labels.silent hs₄ hall (fun _ => rfl) fun _ log₅ hs₅ => ?_
      refine Labels.silent hs₅ hall (fun _ => rfl) fun _ log₆ hs₆ => ?_
      refine labels_ret ?_
      rw [hs₆]
      exact ⟨rfl, hall⟩

theorem labels_saveSelections {workspaceId actorId : Uuid} (selections : List CandidateSelection)
    {results : List ConclusionRef} (hs : (records command log).selections = selections)
    (hbuilt : ∀ x ∈ created command log, x.Built) :
    Labels command (fun _ _ => True) (saveSelections workspaceId actorId selections results) log := by
  induction selections generalizing results log with
  | nil => exact labels_ret trivial
  | cons x xs ih =>
    refine Labels.op fun found => ⟨hbuilt, ?_⟩
    have hs₁ := records_append command log ⟨.getCandidate x.candidateId, found⟩
    cases found with
    | none => exact labels_raise trivial
    | some candidate =>
      have hnext : (records command (log ++ [⟨.getCandidate x.candidateId, some candidate⟩])).selections = xs := by
        rw [hs₁, Records.read, hs]
        rfl
      have hcurrent : (records command (log ++ [⟨.getCandidate x.candidateId, some candidate⟩])).current
          = some (x, candidate) := by
        rw [hs₁, Records.read, hs]
        rfl
      have hbuilt₁ : ∀ s ∈ created command (log ++ [⟨.getCandidate x.candidateId, some candidate⟩]), s.Built := by
        unfold created
        rw [hs₁]
        exact hbuilt
      refine Prog.Ok.bind (p := existingRef candidate) (fun _ => rfl) (labels_existingRef rfl hbuilt₁)
        (fun existing log₂ hs₂ => ?_) (fun _ _ _ => trivial)
      have hbuilt₂ : ∀ s ∈ created command log₂, s.Built := by
        unfold created
        rw [hs₂]
        exact hbuilt₁
      cases existing with
      | some ref => exact ih (by rw [hs₂]; exact hnext) hbuilt₂
      | none =>
        dsimp only
        split
        · exact labels_raise (P := fun _ _ => True) trivial
        · refine Prog.Ok.bind (p := saveCandidate workspaceId actorId candidate x) (fun _ => rfl)
            (labels_saveCandidate hs₂ hcurrent hbuilt₁)
            (fun ref log₃ h₃ => ih (h₃.1.trans hnext) h₃.2) (fun _ _ _ => trivial)

theorem labels_saveCandidates (command : SaveCandidatesCommand) (service : Service) :
    Labels command (fun _ _ => True) (saveCandidates service command) [] := by
  unfold saveCandidates
  cases requireActor service with
  | error e =>
    show Labels command (fun _ _ => True) (.raise e) []
    exact labels_raise trivial
  | ok actorId =>
    refine labels_saveSelections command.selections rfl fun x hx => ?_
    cases hx

/-- **What `save_candidates` creates.** Its conclusions have the label and the texts of their candidate and their
selection. -/
theorem built_created {service : Service} (h : Executes service command log) :
    ∀ s ∈ created command log, s.Built := by
  obtain ⟨q, hsteps⟩ := h
  -- the last operation, if there was one, has been checked
  rcases hsteps.cases_tail with heq | ⟨⟨p, log'⟩, hfirst, hlast⟩
  · obtain ⟨-, rfl⟩ := Prod.mk.inj heq
    intro s hs
    cases hs
  · have hok := (labels_saveCandidates command service).steps (fun _ => rfl) hfirst
    cases hlast with
    | op hsem => exact (hok _ rfl _ _ hsem).1

/-- **When labels are faithful.** The conclusions a call creates are labelled by whether their texts are the
candidate's own, except where a statement was only emptied, or only texts were added the candidate does not have. -/
theorem labels_faithful_iff {service : Service} {log : List Event} (h : Executes service command log) :
    (∀ s ∈ created command log, s.Faithful) ↔ ∀ s ∈ created command log, s.Recognizable := by
  constructor
  · intro hall s hs
    exact (built_created h s hs).faithful_iff_recognizable.mp (hall s hs)
  · intro hall s hs
    exact (built_created h s hs).faithful_iff_recognizable.mpr (hall s hs)

end Calls

/-! ## One candidate -/

section One

/-- The user of the runs below. -/
def user : Service := { actorId := some "u" }

/-- A call that saves one candidate. -/
def saveOne (selection : CandidateSelection) : SaveCandidatesCommand where
  workspaceId := "w"
  turnId := "t"
  selections := [selection]
  idempotencyKey := "k"
  nonempty := List.cons_ne_nil _ _
  atMost := Nat.le_add_left 1 19
  key := idempotencyKey_k

/-- The log of that call, when nothing is refused. -/
def logOne (candidate : ResearchConclusionCandidate) (selection : CandidateSelection) : List Event :=
  [⟨.getCandidate selection.candidateId, some candidate⟩, ⟨.newId, "c"⟩,
    ⟨.insertConclusion { savedConclusion "w" "u" candidate selection with id := "c" }, .ok ()⟩, ⟨.newId, "r"⟩,
    ⟨.insertRevision { savedRevision "u" candidate selection with id := "r", conclusionId := "c" }, .ok ()⟩]

theorem answered {α : Type} {o : Op} {k : Res o → Prog Op Res Exn α} (r : Res o) (log : List Event) :
    Prog.Step (Prog.logged (fun _ _ => True)) (.op o k, log) (k r, log ++ [⟨o, r⟩]) := .op ⟨trivial, rfl⟩

/-- A candidate without a scope. -/
def unscoped : ResearchConclusionCandidate :=
  { id := "x", extractionId := "e", turnId := "t", ordinal := 0, statement := "吸水率上升" }

theorem executes_one (selection : CandidateSelection) :
    Executes user (saveOne selection) (logOne unscoped selection) := by
  apply Exists.intro
  refine .head (answered (o := .getCandidate selection.candidateId) (some unscoped) []) ?_
  refine .head (answered (o := .newId) "c" _) ?_
  refine .head (answered (o := .insertConclusion _) (.ok ()) _) ?_
  refine .head (answered (o := .newId) "r" _) ?_
  exact .head (answered (o := .insertRevision _) (.ok ()) _) .refl

/-- A scope is added to a candidate without one, and the label says that nothing was changed. -/
theorem labels_not_faithful : ¬ ∀ (service : Service) (command : SaveCandidatesCommand) (log : List Event),
    Executes service command log → ∀ s ∈ created command log, s.Faithful := by
  intro h
  have hone := h _ _ _ (executes_one { candidateId := "x", editedScope := some "A" }) _ (List.mem_singleton.mpr rfl)
  exact absurd (hone.mp rfl).2.1 (by decide)

/-- The statement alone is changed. -/
theorem labels_faithful_statement :
    List.Forall Saved.Faithful (created (saveOne { candidateId := "x", editedStatement := some "A" })
      (logOne unscoped { candidateId := "x", editedStatement := some "A" })) := by
  rw [List.forall_iff_forall_mem, labels_faithful_iff (executes_one _)]
  intro s hs
  rw [List.mem_singleton.mp hs]
  refine ⟨fun hemptied => absurd hemptied.1 (by decide), fun hadded => hadded.1 ⟨"A", rfl, by decide⟩⟩

end One

end Irip.Conclusions
