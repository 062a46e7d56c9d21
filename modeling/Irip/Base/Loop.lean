import Mathlib.Order.RelClasses
import Mathlib.Order.WellFounded

/-!
# `Base.Loop` — loops that end

A loop is given by its turn: the state after one turn, or none when the loop is over. A loop whose turns decrease a pair
of numbers ends from every state, and the state it ends in can then be computed.
-/

namespace Loop

variable {σ : Type} (turn : σ → Option σ)

/-! ## Ending -/

/-- From every state only finitely many turns follow. -/
def Ends : Prop := WellFounded (fun s' s => turn s = some s')

variable {turn}

theorem ends_of_decreases (first second : σ → Nat)
    (h : ∀ {s s'}, turn s = some s' → first s' < first s ∨ first s' = first s ∧ second s' < second s) :
    Ends turn := by
  refine Subrelation.wf (fun {s' s} hturn => ?_)
    (InvImage.wf (fun s => (first s, second s)) (Prod.lex Nat.lt_wfRel Nat.lt_wfRel).wf)
  rcases h hturn with hlt | ⟨heq, hlt⟩
  · exact Prod.Lex.left _ _ hlt
  · show Prod.Lex _ _ (first s', second s') _
    rw [heq]
    exact Prod.Lex.right _ hlt

/-! ## Running -/

/-- The state a loop ends in. -/
def run (ends : Ends turn) (s : σ) : σ :=
  match h : turn s with
  | none => s
  | some s' => run ends s'
termination_by ends.wrap s
decreasing_by exact h

/-- **Invariant rule.** What holds at the start and is kept by every turn holds at the end, where no turn is left. -/
theorem run_spec {I : σ → Prop} (ends : Ends turn) (hI : ∀ {s s'}, turn s = some s' → I s → I s') {s : σ} (h : I s) :
    I (run ends s) ∧ turn (run ends s) = none := by
  induction s using ends.induction with
  | _ s ih =>
    rw [run]
    split
    · next hnone => exact ⟨h, hnone⟩
    · next s' hsome => exact ih s' hsome (hI hsome h)

end Loop
