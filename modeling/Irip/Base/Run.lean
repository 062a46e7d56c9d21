import Mathlib.Data.List.Basic

/-!
# `Base.Run` — finite runs of a labelled, partial transition function

A system is a function `step : σ → α → Option σ`: the action `a` is enabled in `s` when `step s a` is
`some`. Nothing else is assumed of `σ` and `α`.
-/

namespace Runs

/-- One executed step of a system. -/
structure Transition (σ α : Type) where
  pre : σ
  act : α
  post : σ

variable {σ α β γ : Type} {step : σ → α → Option σ}

/-! ## Runs and plays -/

/-- `Run step s ts s'`: from `s` the transitions `ts`, in this order, lead to `s'`. -/
inductive Run (step : σ → α → Option σ) : σ → List (Transition σ α) → σ → Prop where
  | nil {s} : Run step s [] s
  | cons {s a m ts s'} : step s a = some m → Run step m ts s' → Run step s (⟨s, a, m⟩ :: ts) s'

/-- The transitions of performing `as` from `s`, up to the first action that is not enabled. -/
def play (step : σ → α → Option σ) : σ → List α → List (Transition σ α)
  | _, [] => []
  | s, a :: as =>
    match step s a with
    | none => []
    | some m => ⟨s, a, m⟩ :: play step m as

/-- The state a list of transitions from `s` ends in. -/
def final (s : σ) : List (Transition σ α) → σ
  | [] => s
  | t :: ts => final t.post ts

theorem play_run (s : σ) (as : List α) : Run step s (play step s as) (final s (play step s as)) := by
  induction as generalizing s with
  | nil => exact .nil
  | cons a as ih =>
    unfold play
    cases h : step s a with
    | none => exact .nil
    | some m => exact .cons h (ih m)

theorem play_cons {s m : σ} {a : α} (h : step s a = some m) (as : List α) :
    play step s (a :: as) = ⟨s, a, m⟩ :: play step m as := by
  rw [play, h]

theorem play_append {s : σ} {as : List α} (h : (play step s as).length = as.length) (bs : List α) :
    play step s (as ++ bs) = play step s as ++ play step (final s (play step s as)) bs := by
  induction as generalizing s with
  | nil => rfl
  | cons a as ih =>
    cases hstep : step s a with
    | none => simp [play, hstep] at h
    | some m =>
      rw [play_cons hstep] at h ⊢
      rw [List.cons_append, play_cons hstep, ih (Nat.succ.inj h)]
      rfl

theorem act_of_mem_play {s : σ} {a : α} {as : List α} {t : Transition σ α} (ht : t ∈ play step s (a :: as)) :
    t.pre = s ∧ t.act = a ∨ t.act ∈ as := by
  induction as generalizing s a with
  | nil =>
    unfold play at ht
    split at ht
    · exact absurd ht List.not_mem_nil
    · left
      rw [List.mem_singleton.mp ht]
      exact ⟨rfl, rfl⟩
  | cons b as ih =>
    unfold play at ht
    split at ht
    · exact absurd ht List.not_mem_nil
    · rcases List.mem_cons.mp ht with rfl | hlater
      · exact .inl ⟨rfl, rfl⟩
      · right
        rcases ih hlater with ⟨-, hact⟩ | hact
        · exact List.mem_cons.mpr (.inl hact)
        · exact List.mem_cons_of_mem _ hact

theorem Run.step_of_mem {s s' : σ} {ts : List (Transition σ α)} (hr : Run step s ts s')
    {t : Transition σ α} (ht : t ∈ ts) : step t.pre t.act = some t.post := by
  induction hr with
  | nil => exact absurd ht List.not_mem_nil
  | cons h _ ih =>
    rcases List.mem_cons.mp ht with rfl | ht
    · exact h
    · exact ih ht

/-- Runs that follow each other. -/
theorem Run.append {s m s' : σ} {ts us : List (Transition σ α)} (hr : Run step s ts m) (hr' : Run step m us s') :
    Run step s (ts ++ us) s' := by
  induction hr with
  | nil => exact hr'
  | cons h _ ih => exact .cons h (ih hr')

/-- A run of one transition. -/
theorem Run.one {s s' : σ} {a : α} (h : step s a = some s') : Run step s [⟨s, a, s'⟩] s' := .cons h .nil

/-- **Invariant rule.** What holds at the start and is preserved by every transition of the run holds
before and after each transition. -/
theorem Run.invariant {I : σ → Prop} {s s' : σ} {ts : List (Transition σ α)} (hr : Run step s ts s')
    (h0 : I s) (hI : ∀ t ∈ ts, I t.pre → I t.post) : ∀ t ∈ ts, I t.pre ∧ I t.post := by
  induction hr with
  | nil => intro t ht; exact absurd ht List.not_mem_nil
  | cons h _ ih =>
    have hm := hI _ List.mem_cons_self h0
    intro t ht
    rcases List.mem_cons.mp ht with rfl | ht
    · exact ⟨h0, hm⟩
    · exact ih hm (fun u hu => hI u (List.mem_cons_of_mem _ hu)) t ht

/-- What holds at the start and is preserved by every transition of the run holds at its end. -/
theorem Run.last {I : σ → Prop} {s s' : σ} {ts : List (Transition σ α)} (hr : Run step s ts s')
    (h0 : I s) (hI : ∀ t ∈ ts, I t.pre → I t.post) : I s' := by
  induction hr with
  | nil => exact h0
  | cons h _ ih => exact ih (hI _ List.mem_cons_self h0) (fun u hu => hI u (List.mem_cons_of_mem _ hu))

theorem Run.invariant_of_step {I : σ → Prop} (hI : ∀ {s a s'}, step s a = some s' → I s → I s')
    {s s' : σ} {ts : List (Transition σ α)} (hr : Run step s ts s') (h0 : I s) :
    ∀ t ∈ ts, I t.pre ∧ I t.post :=
  hr.invariant h0 (fun _ ht => hI (hr.step_of_mem ht))

/-! ## Observations that freeze -/

/-- From every state of the run in which `P` holds, `f` keeps its value to the end of the run. -/
def Frozen (P : σ → Prop) (f : σ → β) : List (Transition σ α) → Prop
  | [] => True
  | t :: ts => (P t.pre → ∀ u ∈ t :: ts, f u.post = f t.pre) ∧ Frozen P f ts

instance Frozen.decidable {P : σ → Prop} [DecidablePred P] [DecidableEq β] {f : σ → β} :
    (ts : List (Transition σ α)) → Decidable (Frozen P f ts)
  | [] => .isTrue trivial
  | _ :: ts => @instDecidableAnd _ _ inferInstance (Frozen.decidable ts)

/-- If no transition changes `f` where `P` holds, and `P` depends on `f` only, then `f` is constant
along a run that starts in a `P`-state. -/
theorem Run.constant {P : σ → Prop} {f : σ → β} (hP : ∀ {s s'}, P s → f s' = f s → P s')
    {s s' : σ} {ts : List (Transition σ α)} (hr : Run step s ts s') (hs : P s)
    (hf : ∀ t ∈ ts, P t.pre → f t.post = f t.pre) : ∀ t ∈ ts, f t.post = f s := by
  induction hr with
  | nil => intro t ht; exact absurd ht List.not_mem_nil
  | cons h _ ih =>
    have hm := hf _ List.mem_cons_self hs
    intro t ht
    rcases List.mem_cons.mp ht with rfl | ht
    · exact hm
    · have hrest := ih (hP hs hm) (fun u hu => hf u (List.mem_cons_of_mem _ hu)) t ht
      exact hrest.trans hm

/-- **Freezing is a property of single transitions**, when `P` depends on the observation `f` only. -/
theorem Run.frozen_iff {P : σ → Prop} {f : σ → β} (hP : ∀ {s s'}, P s → f s' = f s → P s')
    {s s' : σ} {ts : List (Transition σ α)} (hr : Run step s ts s') :
    Frozen P f ts ↔ ∀ t ∈ ts, P t.pre → f t.post = f t.pre := by
  induction hr with
  | nil => exact ⟨fun _ t ht => absurd ht List.not_mem_nil, fun _ => trivial⟩
  | @cons s a m ts s' h hrest ih =>
    constructor
    · rintro ⟨hhead, htail⟩ t ht hp
      rcases List.mem_cons.mp ht with rfl | ht
      · exact hhead hp _ List.mem_cons_self
      · exact ih.mp htail t ht hp
    · intro hall
      refine ⟨?_, ih.mpr (fun t ht => hall t (List.mem_cons_of_mem _ ht))⟩
      intro hp
      exact Run.constant (f := f) hP (.cons h hrest) hp hall

/-! ## What follows a transition -/

/-- Every transition later than one with `P` has `Q`. -/
def After (P Q : Transition σ α → Prop) : List (Transition σ α) → Prop
  | [] => True
  | t :: ts => (P t → ∀ u ∈ ts, Q u) ∧ After P Q ts

instance After.decidable {P Q : Transition σ α → Prop} [DecidablePred P] [DecidablePred Q] :
    (ts : List (Transition σ α)) → Decidable (After P Q ts)
  | [] => .isTrue trivial
  | _ :: ts => @instDecidableAnd _ _ inferInstance (After.decidable ts)

/-- If `Q` and `R` agree on the transitions that leave an `I`-state, and those with `R` lead to an
`I`-state, then along a run from an `I`-state all transitions have `Q` or all have `R` alike. -/
theorem Run.forall_congr {I : σ → Prop} {Q R : Transition σ α → Prop}
    (hI : ∀ {s a s'}, step s a = some s' → I s → (Q ⟨s, a, s'⟩ ↔ R ⟨s, a, s'⟩) ∧ (R ⟨s, a, s'⟩ → I s'))
    {s s' : σ} {ts : List (Transition σ α)} (hr : Run step s ts s') (hs : I s) :
    (∀ t ∈ ts, Q t) ↔ ∀ t ∈ ts, R t := by
  induction hr with
  | nil => simp
  | cons h _ ih =>
    obtain ⟨hiff, hkeep⟩ := hI h hs
    rw [List.forall_mem_cons, List.forall_mem_cons, hiff]
    exact and_congr_right (fun hR => ih (hkeep hR))

/-- **Exchange rule.** `G` holds along the whole run, and a transition with `P` leads from a `G`-state to
an `I`-state; from `I`-states on, `Q` and `R` agree. -/
theorem Run.after_iff {G I : σ → Prop} {P Q R : Transition σ α → Prop}
    (hG : ∀ {s a s'}, step s a = some s' → G s → G s')
    (hP : ∀ {s a s'}, step s a = some s' → G s → P ⟨s, a, s'⟩ → I s')
    (hI : ∀ {s a s'}, step s a = some s' → I s → (Q ⟨s, a, s'⟩ ↔ R ⟨s, a, s'⟩) ∧ (R ⟨s, a, s'⟩ → I s'))
    {s s' : σ} {ts : List (Transition σ α)} (hr : Run step s ts s') (hs : G s) :
    After P Q ts ↔ After P R ts := by
  induction hr with
  | nil => exact Iff.rfl
  | cons h hrest ih =>
    refine and_congr (imp_congr_right fun hp => ?_) (ih (hG h hs))
    exact hrest.forall_congr hI (hP h hs hp)

/-- From every transition with `P` on, that one included, the transitions have `Q`. -/
def Since (P Q : Transition σ α → Prop) : List (Transition σ α) → Prop
  | [] => True
  | t :: ts => (P t → ∀ u ∈ t :: ts, Q u) ∧ Since P Q ts

instance Since.decidable {P Q : Transition σ α → Prop} [DecidablePred P] [DecidablePred Q] :
    (ts : List (Transition σ α)) → Decidable (Since P Q ts)
  | [] => .isTrue trivial
  | _ :: ts => @instDecidableAnd _ _ inferInstance (Since.decidable ts)

theorem Since.at {P Q : Transition σ α → Prop} {ts : List (Transition σ α)} (h : Since P Q ts) :
    ∀ t ∈ ts, P t → Q t := by
  induction ts with
  | nil => intro t ht; exact absurd ht List.not_mem_nil
  | cons t ts ih =>
    intro u hu hP
    rcases List.mem_cons.mp hu with rfl | hu
    · exact h.1 hP _ List.mem_cons_self
    · exact ih h.2 u hu hP

/-- **Since rule.** What `P` establishes and every transition of the run preserves holds from then on. -/
theorem Run.since {J : σ → Prop} {P Q : Transition σ α → Prop} {s s' : σ} {ts : List (Transition σ α)}
    (hr : Run step s ts s') (hP : ∀ t ∈ ts, P t → J t.pre) (hJ : ∀ t ∈ ts, J t.pre → J t.post ∧ Q t) :
    Since P Q ts := by
  induction hr with
  | nil => trivial
  | @cons s a m ts s' h hrest ih =>
    refine ⟨fun hp u hu => ?_, ?_⟩
    · have hall := (Run.cons h hrest).invariant (I := J) (hP _ List.mem_cons_self hp)
        (fun t ht hpre => (hJ t ht hpre).1)
      exact (hJ u hu (hall u hu).1).2
    · exact ih (fun t ht => hP t (List.mem_cons_of_mem _ ht)) (fun t ht => hJ t (List.mem_cons_of_mem _ ht))

/-- **After rule.** What `P` leads to and every transition of the run preserves holds of all later transitions. -/
theorem Run.after {J : σ → Prop} {P Q : Transition σ α → Prop} {s s' : σ} {ts : List (Transition σ α)}
    (hr : Run step s ts s') (hP : ∀ t ∈ ts, P t → J t.post) (hJ : ∀ t ∈ ts, J t.pre → J t.post ∧ Q t) :
    After P Q ts := by
  induction hr with
  | nil => trivial
  | @cons s a m ts s' h hrest ih =>
    have hJ' : ∀ t ∈ ts, J t.pre → J t.post ∧ Q t := fun t ht => hJ t (List.mem_cons_of_mem _ ht)
    refine ⟨?_, ih (fun t ht => hP t (List.mem_cons_of_mem _ ht)) hJ'⟩
    intro hp u hu
    have hall := hrest.invariant (I := J) (hP _ List.mem_cons_self hp) (fun t ht hpre => (hJ' t ht hpre).1)
    exact (hJ' u hu (hall u hu).1).2

/-! ## History variables -/

/-- `Q` holds of every transition together with the value a history variable has before it. The variable starts
with `g`, and `upd` carries it over a transition. -/
def Annotated (upd : γ → Transition σ α → γ) (Q : γ → Transition σ α → Prop) : γ → List (Transition σ α) → Prop
  | _, [] => True
  | g, t :: ts => Q g t ∧ Annotated upd Q (upd g t) ts

instance Annotated.decidable {upd : γ → Transition σ α → γ} {Q : γ → Transition σ α → Prop}
    [∀ g t, Decidable (Q g t)] : (g : γ) → (ts : List (Transition σ α)) → Decidable (Annotated upd Q g ts)
  | _, [] => .isTrue trivial
  | g, t :: ts => @instDecidableAnd _ _ inferInstance (Annotated.decidable (upd g t) ts)

/-- **History rule.** `R` relates the history variable to the state, and a transition with `C` preserves it. Where
`Q` and `C` agree wherever `R` holds, a run has `Q` throughout exactly if it has `C`. -/
theorem Run.annotated_iff {R : γ → σ → Prop} {upd : γ → Transition σ α → γ} {Q : γ → Transition σ α → Prop}
    {C : Transition σ α → Prop}
    (hR : ∀ {g s a s'}, step s a = some s' → R g s →
      (Q g ⟨s, a, s'⟩ ↔ C ⟨s, a, s'⟩) ∧ (C ⟨s, a, s'⟩ → R (upd g ⟨s, a, s'⟩) s'))
    {s s' : σ} {ts : List (Transition σ α)} (hr : Run step s ts s') {g : γ} (hs : R g s) :
    Annotated upd Q g ts ↔ ∀ t ∈ ts, C t := by
  induction hr generalizing g with
  | nil => exact ⟨fun _ t ht => absurd ht List.not_mem_nil, fun _ => trivial⟩
  | cons h _ ih =>
    obtain ⟨hiff, hkeep⟩ := hR h hs
    rw [List.forall_mem_cons, ← hiff]
    exact and_congr_right (fun hQ => ih (hkeep (hiff.mp hQ)))

/-- What `Q` implies holds along the run as well. -/
theorem Annotated.imp {upd : γ → Transition σ α → γ} {Q Q' : γ → Transition σ α → Prop}
    (hQ : ∀ g t, Q g t → Q' g t) {g : γ} {ts : List (Transition σ α)} (h : Annotated upd Q g ts) :
    Annotated upd Q' g ts := by
  induction ts generalizing g with
  | nil => trivial
  | cons t ts ih => exact ⟨hQ g t h.1, ih h.2⟩

end Runs
