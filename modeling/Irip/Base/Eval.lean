import Mathlib.Data.List.Forall2

/-!
# `Base.Eval` — bottom-up evaluation that can fail

An evaluator computes the operands of a node from left to right and then visits the node with their values. The
first error ends the evaluation; what each visit logs is kept in order.
-/

namespace Evaluation

variable {T V ε ω : Type}

/-! ## Fallible steps -/

theorem bind_ok_iff {α β : Type} {x : Except ε α} {f : α → Except ε β} {b : β} :
    x >>= f = .ok b ↔ ∃ a, x = .ok a ∧ f a = .ok b := by
  cases x with
  | error e =>
    constructor
    · intro h
      cases h
    · rintro ⟨_, h, _⟩
      cases h
  | ok a =>
    constructor
    · exact fun h => ⟨a, rfl, h⟩
    · rintro ⟨_, h, hb⟩
      cases h
      exact hb

theorem bind_error_iff {α β : Type} {x : Except ε α} {f : α → Except ε β} {e : ε} :
    x >>= f = .error e ↔ x = .error e ∨ ∃ a, x = .ok a ∧ f a = .error e := by
  cases x with
  | error e' =>
    constructor
    · intro h
      cases h
      exact .inl rfl
    · rintro (h | ⟨_, h, _⟩)
      · cases h
        rfl
      · cases h
  | ok a =>
    constructor
    · exact fun h => .inr ⟨a, rfl, h⟩
    · rintro (h | ⟨_, h, he⟩)
      · cases h
      · cases h
        exact he

theorem ok_of_toOption {α : Type} {x : Except ε α} {a : α} (h : x.toOption = some a) : x = .ok a := by
  cases x with
  | error _ => cases h
  | ok b => rw [Option.some.inj h]

/-! ## Lists -/

theorem mapM_ok_iff {α β : Type} {f : α → Except ε β} {xs : List α} {ys : List β} :
    xs.mapM f = .ok ys ↔ List.Forall₂ (fun x y => f x = .ok y) xs ys := by
  induction xs generalizing ys with
  | nil =>
    rw [List.mapM_nil, List.forall₂_nil_left_iff]
    exact ⟨fun h => (Except.ok.inj h).symm, fun h => h ▸ rfl⟩
  | cons x xs ih =>
    rw [List.mapM_cons, List.forall₂_cons_left_iff, bind_ok_iff]
    constructor
    · rintro ⟨y, hy, h⟩
      obtain ⟨zs, hzs, h⟩ := bind_ok_iff.mp h
      exact ⟨y, zs, hy, ih.mp hzs, (Except.ok.inj h).symm⟩
    · rintro ⟨y, zs, hy, hzs, rfl⟩
      exact ⟨y, hy, bind_ok_iff.mpr ⟨zs, ih.mpr hzs, rfl⟩⟩

theorem mapM_guarded {α β : Type} {f : α → Except ε β} {g : α → β} {P : α → Prop}
    (h : ∀ x y, f x = .ok y ↔ P x ∧ g x = y) {xs : List α} {ys : List β} :
    xs.mapM f = .ok ys ↔ (∀ x ∈ xs, P x) ∧ xs.map g = ys := by
  induction xs generalizing ys with
  | nil =>
    rw [List.mapM_nil]
    exact ⟨fun hys => ⟨List.forall_mem_nil _, Except.ok.inj hys⟩, fun hys => congrArg _ hys.2⟩
  | cons x xs ih =>
    rw [List.mapM_cons, List.forall_mem_cons, List.map_cons, bind_ok_iff]
    constructor
    · rintro ⟨y, hy, hys⟩
      obtain ⟨zs, hzs, hys⟩ := bind_ok_iff.mp hys
      obtain ⟨hP, rfl⟩ := (h x y).mp hy
      obtain ⟨hPs, rfl⟩ := ih.mp hzs
      exact ⟨⟨hP, hPs⟩, Except.ok.inj hys⟩
    · rintro ⟨⟨hP, hPs⟩, rfl⟩
      exact ⟨g x, (h x _).mpr ⟨hP, rfl⟩, bind_ok_iff.mpr ⟨xs.map g, ih.mpr ⟨hPs, rfl⟩, rfl⟩⟩

theorem foldlM_guarded {α σ : Type} {f : σ → α → Except ε σ} {g : σ → α → σ} {P : α → Prop}
    (h : ∀ s x t, f s x = .ok t ↔ P x ∧ g s x = t) {xs : List α} {s t : σ} :
    xs.foldlM f s = .ok t ↔ (∀ x ∈ xs, P x) ∧ xs.foldl g s = t := by
  induction xs generalizing s with
  | nil =>
    rw [List.foldlM_nil]
    exact ⟨fun ht => ⟨List.forall_mem_nil _, Except.ok.inj ht⟩, fun ht => congrArg _ ht.2⟩
  | cons x xs ih =>
    rw [List.foldlM_cons, List.forall_mem_cons, List.foldl_cons, bind_ok_iff]
    constructor
    · rintro ⟨u, hu, ht⟩
      obtain ⟨hP, rfl⟩ := (h s x u).mp hu
      obtain ⟨hPs, ht⟩ := ih.mp ht
      exact ⟨⟨hP, hPs⟩, ht⟩
    · rintro ⟨⟨hP, hPs⟩, ht⟩
      exact ⟨g s x, (h s x _).mpr ⟨hP, rfl⟩, ih.mpr ⟨hPs, ht⟩⟩

theorem mapM_error_iff {α β : Type} {f : α → Except ε β} {xs : List α} {e : ε} :
    xs.mapM f = .error e ↔
      ∃ as x bs ys, xs = as ++ x :: bs ∧ as.mapM f = .ok ys ∧ f x = .error e := by
  induction xs with
  | nil =>
    constructor
    · intro h
      cases h
    · rintro ⟨as, x, bs, _, h, _⟩
      cases as <;> cases h
  | cons x xs ih =>
    rw [List.mapM_cons, bind_error_iff]
    constructor
    · rintro (hx | ⟨y, hy, h⟩)
      · exact ⟨[], x, xs, [], rfl, rfl, hx⟩
      · rcases bind_error_iff.mp h with h | ⟨_, _, h⟩
        · obtain ⟨as, z, bs, ys, rfl, has, hz⟩ := ih.mp h
          refine ⟨x :: as, z, bs, y :: ys, rfl, ?_, hz⟩
          rw [List.mapM_cons]
          exact bind_ok_iff.mpr ⟨y, hy, bind_ok_iff.mpr ⟨ys, has, rfl⟩⟩
        · cases h
    · rintro ⟨as, z, bs, ys, hsplit, has, hz⟩
      cases as with
      | nil =>
        cases hsplit
        exact .inl hz
      | cons a as =>
        cases hsplit
        rw [List.mapM_cons] at has
        obtain ⟨y, hy, has⟩ := bind_ok_iff.mp has
        obtain ⟨zs, hzs, _⟩ := bind_ok_iff.mp has
        exact .inr ⟨y, hy, bind_error_iff.mpr (.inl (ih.mpr ⟨as, z, bs, zs, rfl, hzs, hz⟩))⟩

theorem exists_of_forall₂ {α β : Type} {R : α → β → Prop} {xs : List α} {ys : List β}
    (h : List.Forall₂ R xs ys) {x : α} (hx : x ∈ xs) : ∃ y ∈ ys, R x y := by
  induction h with
  | nil => exact absurd hx List.not_mem_nil
  | @cons a b xs ys hab _ ih =>
    rcases List.mem_cons.mp hx with rfl | hx
    · exact ⟨b, List.mem_cons_self, hab⟩
    · obtain ⟨y, hy, hR⟩ := ih hx
      exact ⟨y, List.mem_cons_of_mem _ hy, hR⟩

theorem forall₂_imp_mem {α β : Type} {R S : α → β → Prop} {xs : List α} {ys : List β}
    (h : List.Forall₂ R xs ys) (hRS : ∀ x ∈ xs, ∀ y, R x y → S x y) : List.Forall₂ S xs ys := by
  induction h with
  | nil => exact .nil
  | cons hab _ ih =>
    exact .cons (hRS _ List.mem_cons_self _ hab)
      (ih (fun x hx => hRS x (List.mem_cons_of_mem _ hx)))

/-! ## Evaluators -/

/-- The operands of a node, what visiting it does with their values, and the evaluation of trees this gives. -/
structure Evaluator (T V ε ω : Type) where
  operands : T → List T
  smaller : ∃ size : T → Nat, ∀ t, ∀ o ∈ operands t, size o < size t
  visit : T → List V → Except ε (V × List ω)
  eval : T → Except ε (V × List ω)
  eval_eq : ∀ t, eval t = (operands t).mapM eval >>= fun rs =>
    visit t (rs.map Prod.fst) >>= fun r => pure (r.1, rs.flatMap Prod.snd ++ r.2)

namespace Evaluator

variable {E : Evaluator T V ε ω}

theorem induction (E : Evaluator T V ε ω) {P : T → Prop}
    (h : ∀ t, (∀ o ∈ E.operands t, P o) → P t) (t : T) : P t := by
  obtain ⟨size, hsize⟩ := E.smaller
  suffices hall : ∀ n t, size t < n → P t from hall (size t + 1) t (Nat.lt_succ_self _)
  intro n
  induction n with
  | zero => exact fun t ht => absurd ht (Nat.not_lt_zero _)
  | succ n ih =>
    intro t ht
    refine h t (fun o ho => ih o ?_)
    have hlt := hsize t o ho
    omega

theorem eval_ok_iff {t : T} {r : V × List ω} :
    E.eval t = .ok r ↔ ∃ rs v, (E.operands t).mapM E.eval = .ok rs ∧
      E.visit t (rs.map Prod.fst) = .ok v ∧ r = (v.1, rs.flatMap Prod.snd ++ v.2) := by
  rw [E.eval_eq, bind_ok_iff]
  constructor
  · rintro ⟨rs, hrs, h⟩
    obtain ⟨v, hv, h⟩ := bind_ok_iff.mp h
    exact ⟨rs, v, hrs, hv, (Except.ok.inj h).symm⟩
  · rintro ⟨rs, v, hrs, hv, rfl⟩
    exact ⟨rs, hrs, bind_ok_iff.mpr ⟨v, hv, rfl⟩⟩

theorem eval_error_cases {t : T} {e : ε} :
    E.eval t = .error e ↔ (E.operands t).mapM E.eval = .error e ∨
      ∃ rs, (E.operands t).mapM E.eval = .ok rs ∧ E.visit t (rs.map Prod.fst) = .error e := by
  rw [E.eval_eq, bind_error_iff]
  refine or_congr Iff.rfl (exists_congr fun rs => and_congr_right fun _ => ?_)
  rw [bind_error_iff]
  constructor
  · rintro (h | ⟨_, _, h⟩)
    · exact h
    · cases h
  · exact fun h => .inl h

/-! ## Reached nodes -/

/-- Evaluating `t` comes to visiting the node `s` with the values `vs` of its operands. -/
inductive Reached (E : Evaluator T V ε ω) : T → T → List V → Prop where
  | here {t rs} : (E.operands t).mapM E.eval = .ok rs → Reached E t t (rs.map Prod.fst)
  | operand {t as o bs rs s vs} : E.operands t = as ++ o :: bs → as.mapM E.eval = .ok rs →
      Reached E o s vs → Reached E t s vs

theorem Reached.operands_ok {t s : T} {vs : List V} (h : Reached E t s vs) :
    ∃ rs, (E.operands s).mapM E.eval = .ok rs ∧ vs = rs.map Prod.fst := by
  induction h with
  | here hrs => exact ⟨_, hrs, rfl⟩
  | operand _ _ _ ih => exact ih

/-- **Failures are failures of visits.** -/
theorem eval_error_iff {t : T} {e : ε} :
    E.eval t = .error e ↔ ∃ s vs, Reached E t s vs ∧ E.visit s vs = .error e := by
  constructor
  · intro h
    induction t using E.induction with
    | h t ih =>
    rcases eval_error_cases.mp h with h | ⟨rs, hrs, h⟩
    · obtain ⟨as, o, bs, ys, hsplit, has, ho⟩ := mapM_error_iff.mp h
      obtain ⟨s, vs, hreach, hs⟩ := ih o (hsplit ▸ List.mem_append_right _ List.mem_cons_self) ho
      exact ⟨s, vs, .operand hsplit has hreach, hs⟩
    · exact ⟨t, _, .here hrs, h⟩
  · rintro ⟨s, vs, hreach, hs⟩
    induction hreach with
    | here hrs => exact eval_error_cases.mpr (.inr ⟨_, hrs, hs⟩)
    | operand hsplit has _ ih =>
      exact eval_error_cases.mpr (.inl (mapM_error_iff.mpr ⟨_, _, _, _, hsplit, has, ih hs⟩))

theorem Reached.log_nil {t s : T} {vs : List V} (h : Reached E t s vs) :
    ∀ {v : V}, E.eval t = .ok (v, []) → ∃ u, E.visit s vs = .ok (u, []) ∧ E.eval s = .ok (u, []) := by
  induction h with
  | @here t rs hrs =>
    intro v hv
    obtain ⟨rs', u, hrs', hu, hr⟩ := eval_ok_iff.mp hv
    rw [hrs] at hrs'
    cases hrs'
    have hnil : rs.flatMap Prod.snd = [] ∧ u.2 = [] := List.append_eq_nil_iff.mp (Prod.mk.inj hr).2.symm
    have hu' : u = (v, []) := by rw [(Prod.mk.inj hr).1, ← hnil.2]
    exact ⟨v, by rw [hu, hu'], hv⟩
  | @operand t as o bs rs s vs hsplit has _ ih =>
    intro v hv
    obtain ⟨rs', u, hrs', hu, hr⟩ := eval_ok_iff.mp hv
    have hnil : rs'.flatMap Prod.snd = [] :=
      (List.append_eq_nil_iff.mp (Prod.mk.inj hr).2.symm).1
    rw [hsplit] at hrs'
    obtain ⟨r, hr', hor⟩ := exists_of_forall₂ (mapM_ok_iff.mp hrs')
      (List.mem_append_right as (List.mem_cons_self (a := o) (l := bs)))
    have hlog : r.2 = [] := List.flatMap_eq_nil_iff.mp hnil r hr'
    exact ih (v := r.1) (by rw [hor, ← hlog])

theorem Reached.operands_reached {t s : T} {vs : List V} (h : Reached E t s vs) :
    List.Forall₂ (fun o v => ∃ us w, Reached E t o us ∧ E.visit o us = .ok (v, w)) (E.operands s) vs := by
  induction h with
  | @here t rs hrs =>
    rw [List.forall₂_map_right_iff]
    refine forall₂_imp_mem (mapM_ok_iff.mp hrs) (fun o ho r hor => ?_)
    obtain ⟨rs', v, hrs', hv, rfl⟩ := eval_ok_iff.mp hor
    obtain ⟨as, bs, hsplit⟩ := List.append_of_mem ho
    -- the operands before `o` were computed too
    have has : as.mapM E.eval = .ok (rs.take as.length) := by
      have htake := List.forall₂_take as.length (mapM_ok_iff.mp hrs)
      rw [hsplit, List.take_left] at htake
      exact mapM_ok_iff.mpr htake
    exact ⟨_, v.2, .operand hsplit has (.here hrs'), hv⟩
  | operand hsplit has _ ih =>
    refine ih.imp ?_
    rintro o v ⟨us, w, hreach, hv⟩
    exact ⟨us, w, .operand hsplit has hreach, hv⟩

/-! ## Invariants -/

/-- What every visit passes on from the values of the operands to the value of the node holds of every value
computed. -/
theorem eval_invariant {P : T → V → Prop}
    (hvisit : ∀ t vs r, List.Forall₂ P (E.operands t) vs → E.visit t vs = .ok r → P t r.1)
    {t : T} {r : V × List ω} (h : E.eval t = .ok r) : P t r.1 := by
  induction t using E.induction generalizing r with
  | h t ih =>
  obtain ⟨rs, v, hrs, hv, rfl⟩ := eval_ok_iff.mp h
  refine hvisit t _ v ?_ hv
  rw [List.forall₂_map_right_iff]
  exact forall₂_imp_mem (mapM_ok_iff.mp hrs) (fun o ho _ hr => ih o ho hr)

/-- The same at the nodes an evaluation comes to: what a visit passes on if it meets a condition holds of the
operands of every node and of its value when all visits meet it. -/
theorem Reached.invariant {P : T → V → Prop} {C : T → List V → Prop} {t : T}
    (hvisit : ∀ s vs r, List.Forall₂ P (E.operands s) vs → C s vs → E.visit s vs = .ok r → P s r.1)
    (hC : ∀ s vs, Reached E t s vs → C s vs) {s : T} {vs : List V} (h : Reached E t s vs) :
    List.Forall₂ P (E.operands s) vs := by
  induction s using E.induction generalizing vs with
  | h s ih =>
  refine forall₂_imp_mem h.operands_reached (fun o ho v hov => ?_)
  obtain ⟨us, w, hreach, hv⟩ := hov
  exact hvisit o us (v, w) (ih o ho hreach) (hC o us hreach) hv

end Evaluator

end Evaluation
