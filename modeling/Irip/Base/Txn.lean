import Irip.Base.Prog
import Irip.Base.Run

/-!
# `Base.Txn` — programs that run in one transaction each, at READ COMMITTED

A session runs one program inside one transaction. Each statement of the program is atomic: it sees what is
committed at that moment together with what its own transaction has written, and what it writes is buffered
until the commit. Two writes that `conflict` (they touch one row, or claim one key of a unique index) exclude
each other: the second statement waits for the transaction of the first. A program that returns commits; one
that raises, loses its connection or is chosen as the victim of a deadlock is aborted.
-/

/-- A database: the effect of a write, the writes that exclude each other, and the answer and the writes of a
statement that sees a database. -/
structure Engine (δ W ω Op : Type) (Res : Op → Type) where
  apply : W → δ → δ
  conflict : W → W → Bool
  handle : (o : Op) → ω → δ → Option (Res o × List W)

namespace Engine

variable {δ W ω Op : Type} {Res : Op → Type} (E : Engine δ W ω Op Res)

/-- The database with the writes of a transaction, in the order they were made. -/
def view (ws : List W) (d : δ) : δ := ws.foldl (fun d w => E.apply w d) d

@[simp] theorem view_nil (d : δ) : E.view [] d = d := rfl

@[simp] theorem view_cons (w : W) (ws : List W) (d : δ) : E.view (w :: ws) d = E.view ws (E.apply w d) := rfl

theorem observe_view {β : Type} {f : δ → β} {g : W → β → β} (h : ∀ w d, f (E.apply w d) = g w (f d)) (ws : List W)
    (d : δ) : f (E.view ws d) = ws.foldl (fun b w => g w b) (f d) := by
  induction ws generalizing d with
  | nil => rfl
  | cons w ws ih => rw [view_cons, ih, h, List.foldl_cons]

theorem view_append {β : Type} {f : δ → List β} {g : W → List β} (h : ∀ w d, f (E.apply w d) = f d ++ g w)
    (ws : List W) (d : δ) : f (E.view ws d) = f d ++ ws.flatMap g := by
  induction ws generalizing d with
  | nil => exact (List.append_nil _).symm
  | cons w ws ih => rw [view_cons, ih, h, List.flatMap_cons, List.append_assoc]

/-- No write of `ws` excludes one of `ws'`. -/
def Apart (ws ws' : List W) : Prop := ∀ w ∈ ws, ∀ w' ∈ ws', E.conflict w w' = false

/-- A statement, as it acts on what is committed and on the writes of its transaction. -/
def sem (o : Op) (x : δ × List W) (r : Res o) (y : δ × List W) : Prop :=
  y.1 = x.1 ∧ ∃ a new, E.handle o a (E.view x.2 x.1) = some (r, new) ∧ y.2 = x.2 ++ new

/-! ## One call alone -/

variable {ε α : Type}

/-- A whole transaction: the program returns and its writes are committed, or it raises and they are undone;
`none` when the program does not take these answers. -/
def transact : List ω → Prog Op Res ε α → List W → δ → Option (Except ε α × δ)
  | [], .ret a, ws, d => some (.ok a, E.view ws d)
  | [], .raise e, _, d => some (.error e, d)
  | a :: as, .op o k, ws, d =>
    match E.handle o a (E.view ws d) with
    | some (r, new) => transact as (k r) (ws ++ new) d
    | none => none
  | _, _, _, _ => none

variable {E} {as : List ω} {ws : List W} {d d' : δ} {out : Except ε α}

theorem transact_op {o : Op} {k : Res o → Prog Op Res ε α}
    (h : E.transact as (.op o k) ws d = some (out, d')) :
    ∃ a as' r new, as = a :: as' ∧ E.handle o a (E.view ws d) = some (r, new) ∧
      E.transact as' (k r) (ws ++ new) d = some (out, d') := by
  cases as with
  | nil => cases h
  | cons a as =>
    simp only [transact] at h
    split at h
    · next r new hr => exact ⟨a, as, r, new, rfl, hr, h⟩
    · cases h

theorem transact_ret {v : α} (h : E.transact as (.ret v : Prog Op Res ε α) ws d = some (out, d')) :
    d' = E.view ws d := by
  cases as with
  | nil => exact (answer_inj h).2.symm
  | cons a as => cases h

theorem transact_raise {e : ε} (h : E.transact as (.raise e : Prog Op Res ε α) ws d = some (out, d')) :
    d' = d := by
  cases as with
  | nil => exact (answer_inj h).2.symm
  | cons a as => cases h

end Engine

/-- One call in its transaction: what was called, what it has written, and the rest of its program; `none` once
the transaction is over. -/
structure Session (ι W Op : Type) (Res : Op → Type) (ε α : Type) where
  call : ι
  writes : List W
  rest : Option (Prog Op Res ε α)

/-- What is committed, and the sessions opened so far. -/
structure Server (ι W Op : Type) (Res : Op → Type) (ε α δ : Type) where
  committed : δ
  sessions : List (Session ι W Op Res ε α)

namespace Server

variable {ι W Op : Type} {Res : Op → Type} {ε α δ ω : Type}

/-- What can happen: a call, the next statement of a session, the end of its transaction. -/
inductive Action (ι ω : Type) where
  | call (c : ι)
  | step (i : Nat) (a : ω)
  | commit (i : Nat)
  | abort (i : Nat)

variable (E : Engine δ W ω Op Res) (prog : ι → Prog Op Res ε α)

/-- Another session holds a write that excludes one of `new`. -/
def blocked (p : Server ι W Op Res ε α δ) (i : Nat) (new : List W) : Bool :=
  p.sessions.zipIdx.any (fun t => t.2 != i && t.1.writes.any (fun w => new.any (E.conflict w)))

/-- The step function: `none` when the action is not possible. -/
def step (p : Server ι W Op Res ε α δ) : Action ι ω → Option (Server ι W Op Res ε α δ)
  | .call c => some { p with sessions := p.sessions ++ [⟨c, [], some (prog c)⟩] }
  | .step i a =>
    match p.sessions[i]? with
    | some ⟨c, ws, some (.op o k)⟩ =>
      match E.handle o a (E.view ws p.committed) with
      | some (r, new) =>
        if blocked E p i new then none
        else some { p with sessions := p.sessions.set i ⟨c, ws ++ new, some (k r)⟩ }
      | none => none
    | _ => none
  | .commit i =>
    match p.sessions[i]? with
    | some ⟨c, ws, some (.ret _)⟩ =>
      some { committed := E.view ws p.committed, sessions := p.sessions.set i ⟨c, [], none⟩ }
    | _ => none
  | .abort i =>
    match p.sessions[i]? with
    | some ⟨c, _, some _⟩ => some { p with sessions := p.sessions.set i ⟨c, [], none⟩ }
    | _ => none

variable {E prog}

/-! ## Inversion -/

theorem step_step {p p' : Server ι W Op Res ε α δ} {i : Nat} {a : ω}
    (h : step E prog p (.step i a) = some p') :
    ∃ c ws o k r new, p.sessions[i]? = some ⟨c, ws, some (.op o k)⟩ ∧
      E.handle o a (E.view ws p.committed) = some (r, new) ∧ blocked E p i new = false ∧
      p' = { p with sessions := p.sessions.set i ⟨c, ws ++ new, some (k r)⟩ } := by
  simp only [step] at h
  split at h
  · next c ws o k hi =>
      split at h
      · next r new hr =>
          split at h
          · cases h
          · next hfree =>
              exact ⟨c, ws, o, k, r, new, hi, hr, by simpa using hfree, (Option.some.inj h).symm⟩
      · cases h
  · cases h

theorem step_commit {p p' : Server ι W Op Res ε α δ} {i : Nat}
    (h : step E prog p (.commit i : Action ι ω) = some p') :
    ∃ c ws v, p.sessions[i]? = some ⟨c, ws, some (.ret v)⟩ ∧
      p' = { committed := E.view ws p.committed, sessions := p.sessions.set i ⟨c, [], none⟩ } := by
  simp only [step] at h
  split at h
  · next c ws v hi => exact ⟨c, ws, v, hi, (Option.some.inj h).symm⟩
  · cases h

theorem step_abort {p p' : Server ι W Op Res ε α δ} {i : Nat}
    (h : step E prog p (.abort i : Action ι ω) = some p') :
    ∃ c ws q, p.sessions[i]? = some ⟨c, ws, some q⟩ ∧
      p' = { p with sessions := p.sessions.set i ⟨c, [], none⟩ } := by
  simp only [step] at h
  split at h
  · next c ws q hi => exact ⟨c, ws, q, hi, (Option.some.inj h).symm⟩
  · cases h

theorem committed_step {p p' : Server ι W Op Res ε α δ} {act : Action ι ω}
    (h : step E prog p act = some p') (hact : ∀ i, act ≠ .commit i) : p'.committed = p.committed := by
  cases act with
  | call c =>
    obtain rfl := Option.some.inj h
    rfl
  | step i a =>
    obtain ⟨_, _, _, _, _, _, _, _, _, rfl⟩ := step_step h
    rfl
  | commit i => exact absurd rfl (hact i)
  | abort i =>
    obtain ⟨_, _, _, _, rfl⟩ := step_abort h
    rfl

theorem apart_of_free {p : Server ι W Op Res ε α δ} {i j : Nat} {new : List W}
    {t : Session ι W Op Res ε α} (hfree : blocked E p i new = false) (hij : j ≠ i)
    (hj : p.sessions[j]? = some t) : E.Apart t.writes new := by
  intro w hw w' hw'
  by_contra hne
  have hconflict : E.conflict w w' = true := by simpa using hne
  have hblocked : blocked E p i new = true := by
    refine List.any_eq_true.mpr ⟨(t, j), List.mem_zipIdx_iff_getElem?.mpr hj, ?_⟩
    simp only [Bool.and_eq_true, bne_iff_ne, ne_eq, List.any_eq_true]
    exact ⟨hij, w, hw, w', hw', hconflict⟩
  rw [hfree] at hblocked
  cases hblocked

/-! ## Rely and guarantee -/

section Sound

variable (E) (R : List W → δ → δ → Prop) (Q : ι → Except ε α → δ × List W → Prop)

/-- What a session relies on: its writes stay its own, and others commit within `R`. -/
def relies (x y : δ × List W) : Prop := y.2 = x.2 ∧ R x.2 x.1 y.1

/-- A program in its transaction is in order: under what it relies on it ends in `Q`. -/
abbrev InOrder (c : ι) (q : Prog Op Res ε α) (d : δ) (ws : List W) : Prop :=
  Prog.Ok E.sem (relies R) (fun _ _ _ _ => True) (Q c) q (d, ws)

/-- Every session is in order, and no two sessions hold writes that exclude each other. -/
structure Sound (p : Server ι W Op Res ε α δ) : Prop where
  inOrder : ∀ (i : Nat) (s : Session ι W Op Res ε α), p.sessions[i]? = some s → ∀ q ∈ s.rest,
    InOrder E R Q s.call q p.committed s.writes
  apart : ∀ (i j : Nat) (s t : Session ι W Op Res ε α), i ≠ j → p.sessions[i]? = some s →
    p.sessions[j]? = some t → E.Apart s.writes t.writes

variable {E R Q}

theorem relies_refl (hrefl : ∀ ws d, R ws d d) (x : δ × List W) : relies R x x := ⟨rfl, hrefl _ _⟩

theorem relies_trans (htrans : ∀ ws {a b c}, R ws a b → R ws b c → R ws a c) {x y z : δ × List W}
    (h : relies R x y) (h' : relies R y z) : relies R x z := by
  obtain ⟨hws, hR⟩ := h
  obtain ⟨hws', hR'⟩ := h'
  refine ⟨hws'.trans hws, htrans _ hR ?_⟩
  rw [hws] at hR'
  exact hR'

theorem rely_view (hrefl : ∀ ws d, R ws d d) (htrans : ∀ ws {a b c}, R ws a b → R ws b c → R ws a c)
    (hwrite : ∀ w ws d, (∀ w' ∈ ws, E.conflict w w' = false) → R ws d (E.apply w d)) {ws ws' : List W}
    (hapart : E.Apart ws ws') (d : δ) : R ws' d (E.view ws d) := by
  induction ws generalizing d with
  | nil => exact hrefl ws' d
  | cons w ws ih =>
    have hhead := hwrite w ws' d (hapart w List.mem_cons_self)
    exact htrans ws' hhead (ih (fun u hu => hapart u (List.mem_cons_of_mem _ hu)) (E.apply w d))

theorem getElem?_set_cases {l : List (Session ι W Op Res ε α)} {i j : Nat} {s t : Session ι W Op Res ε α}
    (h : (l.set i s)[j]? = some t) : (j = i ∧ t = s) ∨ (j ≠ i ∧ l[j]? = some t) := by
  by_cases hij : i = j
  · subst hij
    rw [List.getElem?_set_self'] at h
    cases hl : l[i]? with
    | none => simp [hl] at h
    | some u =>
      rw [hl] at h
      exact .inl ⟨rfl, (Option.some.inj h).symm⟩
  · rw [List.getElem?_set_ne hij] at h
    exact .inr ⟨fun hji => hij hji.symm, h⟩

theorem Sound.apart_end {p : Server ι W Op Res ε α δ} (hp : Sound E R Q p) {i : Nat} {c : ι} (j k : Nat)
    (s t : Session ι W Op Res ε α) (hjk : j ≠ k) (hj : (p.sessions.set i ⟨c, [], none⟩)[j]? = some s)
    (hk : (p.sessions.set i ⟨c, [], none⟩)[k]? = some t) : E.Apart s.writes t.writes := by
  rcases getElem?_set_cases hj with ⟨_, rfl⟩ | ⟨_, hj'⟩
  · intro w hw
    cases hw
  · rcases getElem?_set_cases hk with ⟨_, rfl⟩ | ⟨_, hk'⟩
    · intro _ _ w' hw'
      cases hw'
    · exact hp.apart j k s t hjk hj' hk'

/-- **Soundness.** A step keeps every session in order and the sessions' writes apart, where a new session is in order and
what a commit changes is within what the sessions that are there rely on. -/
theorem Sound.step_of_others (hsymm : ∀ w w', E.conflict w w' = E.conflict w' w) (hrefl : ∀ ws d, R ws d d)
    (htrans : ∀ ws {a b c}, R ws a b → R ws b c → R ws a c) {p p' : Server ι W Op Res ε α δ} {act : Action ι ω}
    (hprog : ∀ c, act = .call c → InOrder E R Q c (prog c) p.committed [])
    (hcommit : ∀ i c ws v, act = .commit i → p.sessions[i]? = some ⟨c, ws, some (.ret v)⟩ →
      Q c (.ok v) (p.committed, ws) → ∀ j s, j ≠ i → p.sessions[j]? = some s → E.Apart ws s.writes →
        R s.writes p.committed (E.view ws p.committed))
    (hp : Sound E R Q p) (h : step E prog p act = some p') : Sound E R Q p' := by
  cases act with
  | call c =>
    obtain rfl := Option.some.inj h
    -- the sessions that were there, and the new one, which has written nothing
    have hcases : ∀ (j : Nat) s, (p.sessions ++ [⟨c, [], some (prog c)⟩])[j]? = some s →
        p.sessions[j]? = some s ∨ s = ⟨c, [], some (prog c)⟩ := by
      intro j s hj
      rcases Nat.lt_or_ge j p.sessions.length with hlt | hge
      · rw [List.getElem?_append_left hlt] at hj
        exact .inl hj
      · rw [List.getElem?_append_right hge, List.getElem?_singleton] at hj
        split at hj
        · exact .inr (Option.some.inj hj).symm
        · cases hj
    constructor
    · intro j s hj q hq
      rcases hcases j s hj with hold | rfl
      · exact hp.inOrder j s hold q hq
      · obtain rfl := Option.some.inj hq
        exact hprog c rfl
    · intro j k s t hjk hj hk
      rcases hcases j s hj with hj' | rfl
      · rcases hcases k t hk with hk' | rfl
        · exact hp.apart j k s t hjk hj' hk'
        · intro _ _ w' hw'
          cases hw'
      · intro w hw
        cases hw
  | step i a =>
    obtain ⟨c, ws, o, k, r, new, hi, hr, hfree, rfl⟩ := step_step h
    have hop := hp.inOrder i _ hi _ rfl (p.committed, ws) (relies_refl hrefl _) r
      (p.committed, ws ++ new) ⟨rfl, a, new, hr, rfl⟩
    constructor
    · intro j s hj q hq
      rcases getElem?_set_cases hj with ⟨_, rfl⟩ | ⟨_, hj'⟩
      · obtain rfl := Option.some.inj hq
        exact hop.2
      · exact hp.inOrder j s hj' q hq
    · -- the writes of the session that moved: the old ones were apart, the new ones are not blocked
      have hnew : ∀ j t, j ≠ i → p.sessions[j]? = some t → E.Apart t.writes (ws ++ new) := by
        intro j t hji hj w hw w' hw'
        rcases List.mem_append.mp hw' with hw' | hw'
        · exact hp.apart j i t _ hji hj hi w hw w' hw'
        · exact apart_of_free hfree hji hj w hw w' hw'
      intro j m s t hjm hj hm
      rcases getElem?_set_cases hj with ⟨rfl, rfl⟩ | ⟨hji, hj'⟩
      · rcases getElem?_set_cases hm with ⟨rfl, _⟩ | ⟨hmi, hm'⟩
        · exact absurd rfl hjm
        · intro w hw w' hw'
          rw [hsymm]
          exact hnew m t hmi hm' w' hw' w hw
      · rcases getElem?_set_cases hm with ⟨rfl, rfl⟩ | ⟨_, hm'⟩
        · exact hnew j s hji hj'
        · exact hp.apart j m s t hjm hj' hm'
  | commit i =>
    obtain ⟨c, ws, v, hi, rfl⟩ := step_commit h
    refine ⟨?_, hp.apart_end⟩
    intro j s hj q hq
    rcases getElem?_set_cases hj with ⟨_, rfl⟩ | ⟨hji, hj'⟩
    · cases hq
    · -- another session: it relies on what was committed, which its writes do not exclude
      have hend : InOrder E R Q c (.ret v) p.committed ws := hp.inOrder i _ hi _ rfl
      have hR : R s.writes p.committed (E.view ws p.committed) :=
        hcommit i c ws v rfl hi (hend _ (relies_refl hrefl _)) j s hji hj'
          (hp.apart i j _ s (fun hij => hji hij.symm) hi hj')
      have hrelies : relies R (p.committed, s.writes) (E.view ws p.committed, s.writes) := ⟨rfl, hR⟩
      exact Prog.Ok.stable (R := relies R) (relies_trans htrans) (hp.inOrder j s hj' q hq) hrelies
  | abort i =>
    obtain ⟨c, ws, q, hi, rfl⟩ := step_abort h
    refine ⟨?_, hp.apart_end⟩
    intro j s hj q' hq'
    rcases getElem?_set_cases hj with ⟨_, rfl⟩ | ⟨_, hj'⟩
    · cases hq'
    · exact hp.inOrder j s hj' q' hq'

/-- Soundness, where every program is in order from the start, and what a commit changes is within what anybody relies on. -/
theorem Sound.step_of_commit (hsymm : ∀ w w', E.conflict w w' = E.conflict w' w) (hrefl : ∀ ws d, R ws d d)
    (htrans : ∀ ws {a b c}, R ws a b → R ws b c → R ws a c)
    (hprog : ∀ c d, InOrder E R Q c (prog c) d []) {p p' : Server ι W Op Res ε α δ} {act : Action ι ω}
    (hcommit : ∀ i c ws v, act = .commit i → p.sessions[i]? = some ⟨c, ws, some (.ret v)⟩ →
      Q c (.ok v) (p.committed, ws) → ∀ ws', E.Apart ws ws' → R ws' p.committed (E.view ws p.committed))
    (hp : Sound E R Q p) (h : Server.step E prog p act = some p') : Sound E R Q p' :=
  hp.step_of_others hsymm hrefl htrans (fun c _ => hprog c p.committed)
    (fun i c ws v hact hi hQ _ s _ _ hapart => hcommit i c ws v hact hi hQ s.writes hapart) h

/-- Soundness, where what any session has established when it commits is within what the others rely on. -/
theorem Sound.step_of_commits (hsymm : ∀ w w', E.conflict w w' = E.conflict w' w) (hrefl : ∀ ws d, R ws d d)
    (htrans : ∀ ws {a b c}, R ws a b → R ws b c → R ws a c)
    (hcommit : ∀ c v ws ws' d, Q c (.ok v) (d, ws) → E.Apart ws ws' → R ws' d (E.view ws d))
    (hprog : ∀ c d, InOrder E R Q c (prog c) d []) {p p' : Server ι W Op Res ε α δ} {act : Action ι ω}
    (hp : Sound E R Q p) (h : Server.step E prog p act = some p') : Sound E R Q p' :=
  hp.step_of_commit hsymm hrefl htrans hprog
    (fun _ c ws v _ _ hQ ws' hapart => hcommit c v ws ws' p.committed hQ hapart) h

theorem Sound.step (hsymm : ∀ w w', E.conflict w w' = E.conflict w' w) (hrefl : ∀ ws d, R ws d d)
    (htrans : ∀ ws {a b c}, R ws a b → R ws b c → R ws a c)
    (hwrite : ∀ w ws d, (∀ w' ∈ ws, E.conflict w w' = false) → R ws d (E.apply w d))
    (hprog : ∀ c d, InOrder E R Q c (prog c) d []) {p p' : Server ι W Op Res ε α δ} {act : Action ι ω}
    (hp : Sound E R Q p) (h : step E prog p act = some p') : Sound E R Q p' :=
  hp.step_of_commits hsymm hrefl htrans
    (fun _ _ _ _ d _ hapart => rely_view hrefl htrans hwrite hapart d) hprog h

/-- **What a commit finds.** The session that commits has established its postcondition. -/
theorem Sound.commit (hrefl : ∀ ws d, R ws d d) {p p' : Server ι W Op Res ε α δ} {i : Nat}
    (hp : Sound E R Q p) (h : Server.step E prog p (.commit i : Action ι ω) = some p') :
    ∃ c ws v, p.sessions[i]? = some ⟨c, ws, some (.ret v)⟩ ∧ Q c (.ok v) (p.committed, ws) ∧
      p'.committed = E.view ws p.committed := by
  obtain ⟨c, ws, v, hi, rfl⟩ := step_commit h
  have hend : InOrder E R Q c (.ret v) p.committed ws := hp.inOrder i _ hi _ rfl
  exact ⟨c, ws, v, hi, hend _ (relies_refl hrefl _), rfl⟩

end Sound

/-! ## Programs in order

One rule for each way a program of a transaction can go on. -/

section Rules

variable {R : List W → δ → δ → Prop} {Q : ι → Except ε α → δ × List W → Prop} {c : ι} {d : δ} {ws : List W}

theorem InOrder.op {o : Op} {k : Res o → Prog Op Res ε α}
    (h : ∀ d', R ws d d' → ∀ a r new, E.handle o a (E.view ws d') = some (r, new) →
      InOrder E R Q c (k r) d' (ws ++ new)) : InOrder E R Q c (.op o k) d ws := by
  rintro ⟨d₁, ws₁⟩ ⟨hws, hholds⟩ r ⟨d₂, ws₂⟩ ⟨hd, a, new, hhandle, hws₂⟩
  obtain rfl : ws₁ = ws := hws
  obtain rfl : d₂ = d₁ := hd
  obtain rfl : ws₂ = ws₁ ++ new := hws₂
  exact ⟨trivial, h d₂ hholds a r new hhandle⟩

theorem InOrder.read {o : Op} {k : Res o → Prog Op Res ε α}
    (hread : ∀ a d r new, E.handle o a d = some (r, new) → new = [])
    (h : ∀ d', R ws d d' → ∀ a r, E.handle o a (E.view ws d') = some (r, []) → InOrder E R Q c (k r) d' ws) :
    InOrder E R Q c (.op o k) d ws := by
  refine InOrder.op fun d' hd a r new hhandle => ?_
  obtain rfl := hread a _ r new hhandle
  rw [List.append_nil]
  exact h d' hd a r hhandle

/-- A check that may raise. -/
theorem InOrder.lift {β : Type} {x : Except ε β} {f : β → Prog Op Res ε α} (herr : ∀ e y, Q c (.error e) y)
    (h : ∀ b, x = .ok b → InOrder E R Q c (f b) d ws) : InOrder E R Q c (Prog.lift x >>= f) d ws :=
  .lift_bind h (fun e _ y _ => herr e y)

theorem InOrder.raise {e : ε} (herr : ∀ e y, Q c (.error e) y) : InOrder E R Q c (.raise e) d ws :=
  fun y _ => herr e y

/-- The end of a transaction. -/
theorem InOrder.ret {v : α} (h : ∀ d', R ws d d' → Q c (.ok v) (d', ws)) : InOrder E R Q c (.ret v) d ws := by
  rintro ⟨d', ws'⟩ ⟨hws, hholds⟩
  obtain rfl : ws' = ws := hws
  exact h d' hholds

end Rules

/-! ## Statements issued -/

theorem issues_step {P : Op → Prop} (hprog : ∀ c, (prog c).Issues P) {p p' : Server ι W Op Res ε α δ}
    {act : Action ι ω} (hp : ∀ s ∈ p.sessions, ∀ q ∈ s.rest, q.Issues P) (h : step E prog p act = some p') :
    ∀ s ∈ p'.sessions, ∀ q ∈ s.rest, q.Issues P := by
  have hset : ∀ {i : Nat} {t : Session ι W Op Res ε α}, (∀ q ∈ t.rest, q.Issues P) →
      ∀ s ∈ p.sessions.set i t, ∀ q ∈ s.rest, q.Issues P := by
    intro i t ht s hs
    rcases List.mem_or_eq_of_mem_set hs with hold | rfl
    · exact hp s hold
    · exact ht
  cases act with
  | call c =>
    obtain rfl := Option.some.inj h
    intro s hs q hq
    rcases List.mem_append.mp hs with hold | hnew
    · exact hp s hold q hq
    · obtain rfl := List.mem_singleton.mp hnew
      obtain rfl := Option.some.inj hq
      exact hprog c
  | step i a =>
    obtain ⟨c, ws, o, k, r, new, hi, -, -, rfl⟩ := step_step h
    refine hset fun q hq => ?_
    obtain rfl := Option.some.inj hq
    exact (hp _ (List.mem_of_getElem? hi) _ rfl).2 r
  | commit i =>
    obtain ⟨c, ws, v, -, rfl⟩ := step_commit h
    exact hset fun q hq => by cases hq
  | abort i =>
    obtain ⟨c, ws, q, -, rfl⟩ := step_abort h
    exact hset fun q hq => by cases hq

end Server
