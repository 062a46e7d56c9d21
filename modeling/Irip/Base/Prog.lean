import Mathlib.Logic.Relation

/-!
# `Base.Prog` — programs of atomic operations

A program issues operations `o : Op` one at a time, continues with the answer `Res o`, and ends by
returning a value or raising an exception. What an operation may answer, and what it does to the state
it is performed on, is a relation `sem o s r s'`; several answers may be possible, and none.
-/

theorem answer_inj {α β : Type} {a a' : α} {b b' : β} (h : some (a, b) = some (a', b')) : a = a' ∧ b = b' :=
  Prod.mk.inj (Option.some.inj h)

theorem written_eq {α β : Type} {a a' : α} {b b' : β} (h : some (a, b) = some (a', b')) : b' = b := (answer_inj h).2.symm

/-- A program over the operations `Op` that returns an `α` or raises an `ε`. -/
inductive Prog (Op : Type) (Res : Op → Type) (ε α : Type) where
  | ret (a : α)
  | raise (e : ε)
  | op (o : Op) (k : Res o → Prog Op Res ε α)

namespace Prog

variable {Op : Type} {Res : Op → Type} {ε α β : Type}

/-! ## Sequencing -/

/-- Run `p`, then `f` with its value; an exception of `p` ends the whole. -/
def bind : Prog Op Res ε α → (α → Prog Op Res ε β) → Prog Op Res ε β
  | .ret a, f => f a
  | .raise e, _ => .raise e
  | .op o k, f => .op o (fun r => bind (k r) f)

instance : Monad (Prog Op Res ε) where
  pure := .ret
  bind := bind

/-- One operation. -/
def perform (o : Op) : Prog Op Res ε (Res o) := .op o .ret

/-- `try p except e: f e`. -/
def rescue : Prog Op Res ε α → (ε → Prog Op Res ε α) → Prog Op Res ε α
  | .ret a, _ => .ret a
  | .raise e, f => f e
  | .op o k, f => .op o (fun r => rescue (k r) f)

/-- The value of a computation that may have failed already. -/
def lift : Except ε α → Prog Op Res ε α
  | .ok a => .ret a
  | .error e => .raise e

@[simp] theorem pure_eq (a : α) : (pure a : Prog Op Res ε α) = .ret a := rfl
@[simp] theorem ret_bind (a : α) (f : α → Prog Op Res ε β) : (Prog.ret a >>= f) = f a := rfl
@[simp] theorem raise_bind (e : ε) (f : α → Prog Op Res ε β) :
    ((Prog.raise e : Prog Op Res ε α) >>= f) = .raise e := rfl
@[simp] theorem op_bind (o : Op) (k : Res o → Prog Op Res ε α) (f : α → Prog Op Res ε β) :
    (Prog.op o k >>= f) = .op o (fun r => k r >>= f) := rfl
@[simp] theorem perform_bind (o : Op) (f : Res o → Prog Op Res ε β) :
    ((perform o : Prog Op Res ε (Res o)) >>= f) = .op o f := rfl
@[simp] theorem lift_ok (a : α) : (lift (.ok a) : Prog Op Res ε α) = .ret a := rfl
@[simp] theorem lift_error (e : ε) : (lift (.error e) : Prog Op Res ε α) = .raise e := rfl

theorem bind_assoc {γ : Type} (p : Prog Op Res ε α) (f : α → Prog Op Res ε β) (g : β → Prog Op Res ε γ) :
    (p >>= f) >>= g = p >>= fun a => f a >>= g := by
  induction p with
  | ret a => rfl
  | raise e => rfl
  | op o k ih => exact congrArg (Prog.op o) (funext ih)

/-- The program has ended, by a value or by an exception. -/
def Ended : Prog Op Res ε α → Prop
  | .ret _ => True
  | .raise _ => True
  | .op _ _ => False

instance : DecidablePred (Ended : Prog Op Res ε α → Prop)
  | .ret _ => .isTrue trivial
  | .raise _ => .isTrue trivial
  | .op _ _ => .isFalse id

/-! ## Operations issued -/

/-- Every operation the program may issue, whatever the answers, is in `P`. -/
def Issues (P : Op → Prop) : Prog Op Res ε α → Prop
  | .ret _ => True
  | .raise _ => True
  | .op o k => P o ∧ ∀ r, Issues P (k r)

section Issues

variable {P : Op → Prop}

theorem Issues.perform {o : Op} (h : P o) : (Prog.perform o : Prog Op Res ε (Res o)).Issues P :=
  ⟨h, fun _ => trivial⟩

theorem Issues.lift (x : Except ε α) : (Prog.lift x : Prog Op Res ε α).Issues P := by
  cases x with
  | ok a => trivial
  | error e => trivial

theorem Issues.bind {p : Prog Op Res ε α} {f : α → Prog Op Res ε β} (hp : p.Issues P)
    (hf : ∀ a, (f a).Issues P) : (p >>= f).Issues P := by
  induction p with
  | ret a => exact hf a
  | raise e => trivial
  | op o k ih => exact ⟨hp.1, fun r => ih r (hp.2 r)⟩

theorem Issues.rescue {p : Prog Op Res ε α} {f : ε → Prog Op Res ε α} (hp : p.Issues P)
    (hf : ∀ e, (f e).Issues P) : (p.rescue f).Issues P := by
  induction p with
  | ret a => trivial
  | raise e => exact hf e
  | op o k ih => exact ⟨hp.1, fun r => ih r (hp.2 r)⟩

end Issues

/-! ## Executions -/

section Executions

variable {σ : Type} (sem : (o : Op) → σ → Res o → σ → Prop)

/-- One operation of a program. -/
inductive Step : Prog Op Res ε α × σ → Prog Op Res ε α × σ → Prop where
  | op {o k s r s'} : sem o s r s' → Step (.op o k, s) (k r, s')

/-- Any number of operations: the second pair is where the program has got to. -/
abbrev Steps : Prog Op Res ε α × σ → Prog Op Res ε α × σ → Prop :=
  Relation.ReflTransGen (Step sem)

variable {sem}

/-- The program run alone, as an executable semantics answers it. -/
def exec {ω : Type} (handle : (o : Op) → ω → σ → Option (Res o × σ)) :
    List ω → Prog Op Res ε α × σ → Option (Prog Op Res ε α × σ)
  | a :: as, (.op o k, s) => (handle o a s).bind (fun p => exec handle as (k p.1, p.2))
  | [], c => some c
  | _ :: _, _ => none

theorem Steps.of_exec {ω : Type} {handle : (o : Op) → ω → σ → Option (Res o × σ)} {as : List ω}
    {c c' : Prog Op Res ε α × σ} (h : exec handle as c = some c') :
    Steps (fun o s r s' => ∃ a, handle o a s = some (r, s')) c c' := by
  induction as generalizing c with
  | nil =>
    obtain ⟨p, s⟩ := c
    obtain rfl : (p, s) = c' := by
      cases p <;> exact Option.some.inj h
    exact .refl
  | cons a as ih =>
    obtain ⟨p, s⟩ := c
    cases p with
    | ret x => cases h
    | raise e => cases h
    | op o k =>
      obtain ⟨⟨r, s₁⟩, hhandle, hrest⟩ := Option.bind_eq_some_iff.mp h
      exact .head (.op ⟨a, hhandle⟩) (ih hrest)

end Executions

/-! ## Rely and guarantee -/

section RelyGuarantee

variable {σ : Type} (sem : (o : Op) → σ → Res o → σ → Prop) (R : σ → σ → Prop)
  (G : (o : Op) → σ → Res o → σ → Prop)

/-- Under interference within `R`, every operation of the program satisfies `G` and its end satisfies
`Q`. -/
def Ok (Q : Except ε α → σ → Prop) : Prog Op Res ε α → σ → Prop
  | .ret a, s => ∀ s₁, R s s₁ → Q (.ok a) s₁
  | .raise e, s => ∀ s₁, R s s₁ → Q (.error e) s₁
  | .op o k, s => ∀ s₁, R s s₁ → ∀ r s₂, sem o s₁ r s₂ → G o s₁ r s₂ ∧ Ok Q (k r) s₂

variable {sem R G} {Q Q' : Except ε α → σ → Prop}

theorem Ok.stable (htrans : ∀ {a b c}, R a b → R b c → R a c) {p : Prog Op Res ε α} {s s' : σ}
    (h : Ok sem R G Q p s) (hR : R s s') : Ok sem R G Q p s' := by
  cases p with
  | ret a | raise e | op o k => exact fun s₁ h₁ => h s₁ (htrans hR h₁)

theorem Ok.mono (hQ : ∀ out s, Q out s → Q' out s) {p : Prog Op Res ε α} {s : σ}
    (h : Ok sem R G Q p s) : Ok sem R G Q' p s := by
  induction p generalizing s with
  | ret a | raise e => exact fun s₁ h₁ => hQ _ _ (h s₁ h₁)
  | op o k ih =>
    intro s₁ h₁ r s₂ hsem
    have hop := h s₁ h₁ r s₂ hsem
    exact ⟨hop.1, ih r hop.2⟩

/-- A single operation. -/
theorem Ok.perform {o : Op} {Q : Except ε (Res o) → σ → Prop} {s : σ}
    (h : ∀ s₁, R s s₁ → ∀ r s₂, sem o s₁ r s₂ → G o s₁ r s₂ ∧ ∀ s₃, R s₂ s₃ → Q (.ok r) s₃) :
    Ok sem R G Q (Prog.perform o) s := h

theorem Ok.perform_bind {o : Op} {f : Res o → Prog Op Res ε α} {s : σ}
    (h : ∀ s₁, R s s₁ → ∀ r s₂, sem o s₁ r s₂ → G o s₁ r s₂ ∧ Ok sem R G Q (f r) s₂) :
    Ok sem R G Q (Prog.perform o >>= f) s := h

/-- **Sequencing.** -/
theorem Ok.bind {Q : Except ε β → σ → Prop} {P : Except ε α → σ → Prop} (hrefl : ∀ s, R s s)
    {p : Prog Op Res ε α} {f : α → Prog Op Res ε β} {s : σ} (hp : Ok sem R G P p s)
    (hf : ∀ a s', P (.ok a) s' → Ok sem R G Q (f a) s')
    (he : ∀ e s', P (.error e) s' → Q (.error e) s') : Ok sem R G Q (p >>= f) s := by
  induction p generalizing s with
  | ret a => exact hf a s (hp s (hrefl s))
  | raise e => exact fun s₁ h₁ => he e s₁ (hp s₁ h₁)
  | op o k ih =>
    intro s₁ h₁ r s₂ hsem
    have hop := hp s₁ h₁ r s₂ hsem
    exact ⟨hop.1, ih r hop.2⟩

/-- **Exception handling.** -/
theorem Ok.rescue {P : Except ε α → σ → Prop} (hrefl : ∀ s, R s s)
    {p : Prog Op Res ε α} {f : ε → Prog Op Res ε α} {s : σ} (hp : Ok sem R G P p s)
    (hf : ∀ e s', P (.error e) s' → Ok sem R G Q (f e) s')
    (ha : ∀ a s', P (.ok a) s' → Q (.ok a) s') : Ok sem R G Q (p.rescue f) s := by
  induction p generalizing s with
  | ret a => exact fun s₁ h₁ => ha a s₁ (hp s₁ h₁)
  | raise e => exact hf e s (hp s (hrefl s))
  | op o k ih =>
    intro s₁ h₁ r s₂ hsem
    have hop := hp s₁ h₁ r s₂ hsem
    exact ⟨hop.1, ih r hop.2⟩

theorem Ok.lift_bind {x : Except ε β} {f : β → Prog Op Res ε α} {s : σ}
    (hok : ∀ b, x = .ok b → Ok sem R G Q (f b) s)
    (herr : ∀ e, x = .error e → ∀ s₁, R s s₁ → Q (.error e) s₁) :
    Ok sem R G Q (Prog.lift x >>= f) s := by
  cases x with
  | ok b => exact hok b rfl
  | error e => exact herr e rfl

theorem Ok.step (hrefl : ∀ s, R s s) {p p' : Prog Op Res ε α} {s s' : σ} (h : Ok sem R G Q p s)
    (hstep : Step sem (p, s) (p', s')) : Ok sem R G Q p' s' := by
  cases hstep with
  | op hsem => exact (h _ (hrefl _) _ _ hsem).2

theorem Ok.steps (hrefl : ∀ s, R s s) {c c' : Prog Op Res ε α × σ} (h : Ok sem R G Q c.1 c.2)
    (hsteps : Steps sem c c') : Ok sem R G Q c'.1 c'.2 := by
  induction hsteps with
  | refl => exact h
  | tail _ hstep ih => exact ih.step hrefl hstep

theorem Ok.ended (hrefl : ∀ s, R s s) {p : Prog Op Res ε α} {s : σ} (h : Ok sem R G Q p s)
    (hp : p.Ended) : ∃ out, Q out s := by
  cases p with
  | ret a => exact ⟨.ok a, h s (hrefl s)⟩
  | raise e => exact ⟨.error e, h s (hrefl s)⟩
  | op o k => exact hp.elim

end RelyGuarantee

/-! ## Logs -/

/-- An operation with its answer. -/
structure Event (Op : Type) (Res : Op → Type) where
  op : Op
  res : Res op

/-- The semantics whose state is the log, where any answer within `A` is possible. -/
def logged (A : (o : Op) → Res o → Prop) (o : Op) (h : List (Event Op Res)) (r : Res o)
    (h' : List (Event Op Res)) : Prop :=
  A o r ∧ h' = h ++ [⟨o, r⟩]

/-- An executable semantics that also records what was answered. -/
def recorded {ω σ : Type} (handle : (o : Op) → ω → σ → Option (Res o × σ)) (o : Op) (a : ω)
    (c : σ × List (Event Op Res)) : Option (Res o × (σ × List (Event Op Res))) :=
  (handle o a c.1).map (fun p => (p.1, (p.2, c.2 ++ [⟨o, p.1⟩])))

theorem Ok.log_grows {A : (o : Op) → Res o → Prop}
    {G : (o : Op) → List (Event Op Res) → Res o → List (Event Op Res) → Prop}
    {Q : Except ε α → List (Event Op Res) → Prop} {p : Prog Op Res ε α} {h : List (Event Op Res)}
    (hp : Ok (logged A) Eq G Q p h) : Ok (logged A) Eq G (fun out h' => Q out h' ∧ h <+: h') p h := by
  induction p generalizing h with
  | ret a | raise e =>
    rintro _ rfl
    exact ⟨hp h rfl, List.prefix_refl h⟩
  | op o k ih =>
    rintro _ rfl r h₂ hsem
    have hop := hp h rfl r h₂ hsem
    refine ⟨hop.1, (ih r hop.2).mono ?_⟩
    rintro out h' ⟨hQ, hpre⟩
    have hstep : h <+: h₂ := by
      rw [hsem.2]
      exact List.prefix_append h _
    exact ⟨hQ, hstep.trans hpre⟩

end Prog
