import Irip.Base.Prog
import Irip.Base.Run

/-!
# `Base.Pool` — interleaved programs

Any number of programs, started by calls and interleaved operation by operation over one shared state. A
program can be killed between two operations.
-/

/-- One call: what was called, and the rest of its program; `none` once it has been killed. -/
structure Thread (ι Op : Type) (Res : Op → Type) (ε α : Type) where
  call : ι
  rest : Option (Prog Op Res ε α)

/-- The calls made so far and the state they share. -/
structure Pool (ι Op : Type) (Res : Op → Type) (ε α σ : Type) where
  state : σ
  threads : List (Thread ι Op Res ε α)

namespace Pool

variable {ι Op : Type} {Res : Op → Type} {ε α σ ω : Type}

/-- What can happen to a pool: a new call, the next operation of a call (with what the surroundings
contribute to its answer), the end of the process a call runs in. -/
inductive Action (ι ω : Type) where
  | call (c : ι)
  | step (i : Nat) (a : ω)
  | kill (i : Nat)

/-- The operation call `i` is about to perform. -/
def next? (p : Pool ι Op Res ε α σ) (i : Nat) : Option Op :=
  match p.threads[i]? with
  | some ⟨_, some (.op o _)⟩ => some o
  | _ => none

/-- Call `i` is still in progress and is an execution of `c`. -/
def Active (p : Pool ι Op Res ε α σ) (i : Nat) (c : ι) : Prop :=
  ∃ o k, p.threads[i]? = some ⟨c, some (.op o k)⟩

variable (prog : ι → Prog Op Res ε α) (handle : (o : Op) → ω → σ → Option (Res o × σ))

/-- The step function: `none` when the action is not possible. -/
def step (p : Pool ι Op Res ε α σ) : Action ι ω → Option (Pool ι Op Res ε α σ)
  | .call c => some { p with threads := p.threads ++ [⟨c, some (prog c)⟩] }
  | .kill i =>
    match p.threads[i]? with
    | some t => some { p with threads := p.threads.set i { t with rest := none } }
    | none => none
  | .step i a =>
    match p.threads[i]? with
    | some ⟨c, some (.op o k)⟩ =>
      match handle o a p.state with
      | some (r, s) => some { state := s, threads := p.threads.set i ⟨c, some (k r)⟩ }
      | none => none
    | _ => none

/-- The relation an executable semantics stands for. -/
def semOf (o : Op) (s : σ) (r : Res o) (s' : σ) : Prop := ∃ a, handle o a s = some (r, s')

variable {prog handle}

theorem step_step {p p' : Pool ι Op Res ε α σ} {i : Nat} {a : ω}
    (h : step prog handle p (.step i a) = some p') :
    ∃ c o k r, p.threads[i]? = some ⟨c, some (.op o k)⟩ ∧ handle o a p.state = some (r, p'.state) ∧
      p'.threads = p.threads.set i ⟨c, some (k r)⟩ := by
  simp only [step] at h
  split at h
  · next c o k hi =>
      split at h
      · next r s hr =>
          obtain rfl := Option.some.inj h
          exact ⟨c, o, k, r, hi, hr, rfl⟩
      · cases h
  · cases h

theorem state_of_call {p p' : Pool ι Op Res ε α σ} {c : ι}
    (h : step prog handle p (.call c : Action ι ω) = some p') : p'.state = p.state := by
  obtain rfl := Option.some.inj h
  rfl

theorem step_kill {p p' : Pool ι Op Res ε α σ} {i : Nat}
    (h : step prog handle p (.kill i : Action ι ω) = some p') :
    ∃ t, p.threads[i]? = some t ∧ p' = { p with threads := p.threads.set i { t with rest := none } } := by
  simp only [step] at h
  split at h
  · next t hi => exact ⟨t, hi, (Option.some.inj h).symm⟩
  · cases h

theorem state_of_kill {p p' : Pool ι Op Res ε α σ} {i : Nat}
    (h : step prog handle p (.kill i : Action ι ω) = some p') : p'.state = p.state := by
  obtain ⟨t, _, rfl⟩ := step_kill h
  rfl

theorem issues_step {P : ι → Op → Prop} (hP : ∀ c, (prog c).Issues (P c)) {p p' : Pool ι Op Res ε α σ}
    {act : Action ι ω} (h : step prog handle p act = some p')
    (hp : ∀ t ∈ p.threads, ∀ q ∈ t.rest, q.Issues (P t.call)) :
    ∀ t ∈ p'.threads, ∀ q ∈ t.rest, q.Issues (P t.call) := by
  intro t ht q hq
  cases act with
  | call c =>
    obtain rfl := Option.some.inj h
    rcases List.mem_append.mp ht with ht | ht
    · exact hp t ht q hq
    · obtain rfl := List.mem_singleton.mp ht
      obtain rfl := Option.some.inj hq
      exact hP c
  | kill i =>
    obtain ⟨u, _, rfl⟩ := step_kill h
    rcases List.mem_or_eq_of_mem_set ht with ht | rfl
    · exact hp t ht q hq
    · cases hq
  | step i a =>
    obtain ⟨c, o, k, r, hi, _, hthreads⟩ := step_step h
    rw [hthreads] at ht
    rcases List.mem_or_eq_of_mem_set ht with ht | rfl
    · exact hp t ht q hq
    · obtain rfl := Option.some.inj hq
      exact (hp _ (List.mem_of_getElem? hi) _ rfl).2 r

/-! ## Rely and guarantee in a pool -/

section Sound

variable (handle) (R : ι → σ → σ → Prop) (G : ι → (o : Op) → σ → Res o → σ → Prop)
  (Q : ι → Except ε α → σ → Prop)

/-- Every call in progress is in order. -/
def AllOk (p : Pool ι Op Res ε α σ) : Prop :=
  ∀ (i : Nat) c o k, p.threads[i]? = some ⟨c, some (.op o k)⟩ →
    Prog.Ok (semOf handle) (R c) (G c) (Q c) (.op o k) p.state

/-- What one call guarantees, the others in progress can rely on. -/
def Compatible (p : Pool ι Op Res ε α σ) : Prop :=
  ∀ i j c d, i ≠ j → p.Active i c → p.Active j d →
    ∀ o s r s', G c o s r s' → R d s s'

variable {handle R G Q}

/-- **Soundness.** A step of a call that is in order satisfies its guarantee and leaves every call in
order. -/
theorem AllOk.sound (hrefl : ∀ c s, R c s s) (htrans : ∀ c {a b d}, R c a b → R c b d → R c a d)
    {p p' : Pool ι Op Res ε α σ} (hok : AllOk handle R G Q p) (hcomp : Compatible R G p)
    {i : Nat} {a : ω} (h : step prog handle p (.step i a) = some p') :
    AllOk handle R G Q p' ∧
      ∃ c o k r, p.threads[i]? = some ⟨c, some (.op o k)⟩ ∧ G c o p.state r p'.state ∧
        p'.threads = p.threads.set i ⟨c, some (k r)⟩ ∧
        Prog.Ok (semOf handle) (R c) (G c) (Q c) (k r) p'.state := by
  obtain ⟨c, o, k, r, hi, hr, ht⟩ := step_step h
  have hop := hok i c o k hi p.state (hrefl c _) r p'.state ⟨a, hr⟩
  refine ⟨?_, c, o, k, r, hi, hop.1, ht, hop.2⟩
  intro j d o' k' hj
  rw [ht, List.getElem?_set] at hj
  by_cases hij : i = j
  · -- the call that moved: what is left of it is in order
    subst hij
    have hlt : i < p.threads.length := (List.getElem?_eq_some_iff.mp hi).1
    simp only [if_pos hlt, if_true, Option.some.injEq, Thread.mk.injEq] at hj
    obtain ⟨rfl, hrest⟩ := hj
    rw [← hrest]
    exact hop.2
  · -- another call: it relies on the guarantee of the one that moved
    rw [if_neg hij] at hj
    have hR : R d p.state p'.state := hcomp i j c d hij ⟨o, k, hi⟩ ⟨o', k', hj⟩ o _ r _ hop.1
    exact Prog.Ok.stable (R := R d) (htrans d) (hok j d o' k' hj) hR

theorem AllOk.call {p p' : Pool ι Op Res ε α σ} {c : ι} (hok : AllOk handle R G Q p)
    (hc : Prog.Ok (semOf handle) (R c) (G c) (Q c) (prog c) p.state)
    (h : step prog handle p (.call c : Action ι ω) = some p') : AllOk handle R G Q p' := by
  obtain rfl := Option.some.inj h
  intro j d o k hj
  rcases Nat.lt_or_ge j p.threads.length with hlt | hge
  · rw [List.getElem?_append_left hlt] at hj
    exact hok j d o k hj
  · rw [List.getElem?_append_right hge, List.getElem?_singleton] at hj
    split at hj
    · simp only [Option.some.injEq, Thread.mk.injEq] at hj
      obtain ⟨rfl, hprog⟩ := hj
      rw [← hprog]
      exact hc
    · cases hj

theorem AllOk.kill {p p' : Pool ι Op Res ε α σ} {i : Nat} (hok : AllOk handle R G Q p)
    (h : step prog handle p (.kill i : Action ι ω) = some p') : AllOk handle R G Q p' := by
  obtain ⟨t, hi, rfl⟩ := step_kill h
  intro j d o k hj
  simp only [List.getElem?_set] at hj
  by_cases hij : i = j
  · subst hij
    have hlt : i < p.threads.length := (List.getElem?_eq_some_iff.mp hi).1
    simp [hlt] at hj
  · rw [if_neg hij] at hj
    exact hok j d o k hj

end Sound

/-! ## The log of a call -/

section Log

open Prog (Event logged)
open Runs (Transition Run)

variable (handle) in
/-- The operation of call `i` an action performs, with its answer. -/
def event? (i : Nat) (p : Pool ι Op Res ε α σ) : Action ι ω → Option (Event Op Res)
  | .step j a =>
    if j = i then
      match p.threads[i]? with
      | some ⟨_, some (.op o _)⟩ => (handle o a p.state).map (fun x => ⟨o, x.1⟩)
      | _ => none
    else none
  | _ => none

variable (handle) in
/-- What call `i` has done in a run. -/
def log (i : Nat) (ts : List (Transition (Pool ι Op Res ε α σ) (Action ι ω))) : List (Event Op Res) :=
  ts.filterMap (fun t => event? handle i t.pre t.act)

/-- **What a step does to one call.** It performs an operation; or it is left alone, made, or killed. -/
theorem thread_step {p p' : Pool ι Op Res ε α σ} {act : Action ι ω} (h : step prog handle p act = some p')
    (i : Nat) :
    (∃ c o k r, p.threads[i]? = some ⟨c, some (.op o k)⟩ ∧ event? handle i p act = some ⟨o, r⟩ ∧
      p'.threads[i]? = some ⟨c, some (k r)⟩) ∨
    (event? handle i p act = none ∧
      (p'.threads[i]? = p.threads[i]? ∨
       (p.threads.length = i ∧ ∃ c, act = .call c ∧ p'.threads[i]? = some ⟨c, some (prog c)⟩) ∨
       ∃ t, p.threads[i]? = some t ∧ p'.threads[i]? = some { t with rest := none })) := by
  cases act with
  | call d =>
    obtain rfl := Option.some.inj h
    refine .inr ⟨rfl, ?_⟩
    rcases Nat.lt_trichotomy i p.threads.length with hlt | heq | hgt
    · exact .inl (List.getElem?_append_left hlt)
    · subst heq
      exact .inr (.inl ⟨rfl, d, rfl, by simp⟩)
    · left
      have hlen : (p.threads ++ [(⟨d, some (prog d)⟩ : Thread ι Op Res ε α)]).length ≤ i := by
        rw [List.length_append, List.length_singleton]
        omega
      show (p.threads ++ [_])[i]? = _
      rw [List.getElem?_eq_none hlen, List.getElem?_eq_none (Nat.le_of_lt hgt)]
  | kill j =>
    obtain ⟨t, hj, rfl⟩ := step_kill h
    refine .inr ⟨rfl, ?_⟩
    by_cases hji : j = i
    · subst hji
      have hlt : j < p.threads.length := (List.getElem?_eq_some_iff.mp hj).1
      exact .inr (.inr ⟨t, hj, by simp [hlt]⟩)
    · exact .inl (by simp [hji])
  | step j a =>
    obtain ⟨c, o, k, r, hj, hhandle, ht⟩ := step_step h
    by_cases hji : j = i
    · subst hji
      have hlt : j < p.threads.length := (List.getElem?_eq_some_iff.mp hj).1
      exact .inl ⟨c, o, k, r, hj, by simp [event?, hj, hhandle], by simp [ht, hlt]⟩
    · exact .inr ⟨by simp [event?, hji], .inl (by simp [ht, hji])⟩

theorem call_step {p p' : Pool ι Op Res ε α σ} {act : Action ι ω} (h : step prog handle p act = some p')
    {i : Nat} {t : Thread ι Op Res ε α} (hi : p.threads[i]? = some t) :
    ∃ t', p'.threads[i]? = some t' ∧ t'.call = t.call := by
  rcases thread_step h i with ⟨c, o, k, r, hop, _, hi'⟩ | ⟨_, hsame | ⟨hlen, _⟩ | ⟨u, hu, hi'⟩⟩
  · rw [hi] at hop
    obtain rfl := Option.some.inj hop
    exact ⟨_, hi', rfl⟩
  · exact ⟨t, hsame.trans hi, rfl⟩
  · have hlt := (List.getElem?_eq_some_iff.mp hi).1
    omega
  · rw [hi] at hu
    obtain rfl := Option.some.inj hu
    exact ⟨_, hi', rfl⟩

theorem call_run {p p' : Pool ι Op Res ε α σ} {ts : List (Transition (Pool ι Op Res ε α σ) (Action ι ω))}
    (hrun : Run (step prog handle) p ts p') {i : Nat} {t : Thread ι Op Res ε α}
    (hi : p.threads[i]? = some t) : ∃ t', p'.threads[i]? = some t' ∧ t'.call = t.call := by
  induction hrun generalizing t with
  | nil => exact ⟨t, hi, rfl⟩
  | cons h _ ih =>
    obtain ⟨u, hu, hcall⟩ := call_step h hi
    obtain ⟨t', ht', hcall'⟩ := ih hu
    exact ⟨t', ht', hcall'.trans hcall⟩

/-- **Logs of a pool.** What is guaranteed of a program with respect to its log holds of every event of the
call's log, in every run. -/
theorem log_ok {A : (o : Op) → Res o → Prop}
    {G : ι → (o : Op) → List (Event Op Res) → Res o → List (Event Op Res) → Prop}
    {Q : ι → Except ε α → List (Event Op Res) → Prop} {i : Nat}
    (hprog : ∀ c, Prog.Ok (logged A) Eq (G c) (Q c) (prog c) [])
    {p p' : Pool ι Op Res ε α σ} {ts : List (Transition (Pool ι Op Res ε α σ) (Action ι ω))}
    (hrun : Run (step prog handle) p ts p')
    (hA : ∀ t ∈ ts, ∀ ev ∈ event? handle i t.pre t.act, A ev.op ev.res) {h : List (Event Op Res)}
    (hcur : ∀ c q, p.threads[i]? = some ⟨c, some q⟩ → Prog.Ok (logged A) Eq (G c) (Q c) q h)
    (hnew : p.threads.length ≤ i → h = []) {t : Thread ι Op Res ε α} (ht : p'.threads[i]? = some t) :
    ∀ pre ev post, log handle i ts = pre ++ ev :: post →
      G t.call ev.op (h ++ pre) ev.res (h ++ pre ++ [ev]) := by
  induction hrun generalizing h with
  | nil =>
    intro pre ev post hlog
    simp [log] at hlog
  | @cons p act m ts p' hstep hrest ih =>
    have hA' : ∀ t ∈ ts, ∀ ev ∈ event? handle i t.pre t.act, A ev.op ev.res :=
      fun u hu => hA u (List.mem_cons_of_mem _ hu)
    rcases thread_step hstep i with ⟨c, o, k, r, hi, hev, hi'⟩ | ⟨hev, hcases⟩
    · -- the call performs an operation, which is the next event of its log
      have hop := hcur c (.op o k) hi h rfl r (h ++ [⟨o, r⟩]) ⟨hA _ List.mem_cons_self _ hev, rfl⟩
      have hcall : t.call = c := by
        obtain ⟨t', ht', hcall⟩ := call_run hrest hi'
        rw [ht] at ht'
        obtain rfl := Option.some.inj ht'
        exact hcall
      have htail := ih hA' (h := h ++ [⟨o, r⟩])
        (by
          intro c' q hq
          rw [hi'] at hq
          obtain ⟨rfl, hq'⟩ := Thread.mk.inj (Option.some.inj hq)
          obtain rfl := Option.some.inj hq'
          exact hop.2)
        (by
          intro hlen
          have hlt := (List.getElem?_eq_some_iff.mp hi').1
          omega) ht
      intro pre ev post hsplit
      have hlog : log handle i (⟨p, act, m⟩ :: ts) = ⟨o, r⟩ :: log handle i ts := by simp [log, hev]
      rw [hlog] at hsplit
      cases pre with
      | nil =>
        obtain ⟨rfl, _⟩ := List.cons.inj hsplit
        rw [hcall]
        simpa using hop.1
      | cons e₁ pre' =>
        obtain ⟨rfl, hsplit'⟩ := List.cons.inj hsplit
        have hG := htail pre' ev post hsplit'
        simpa using hG
    · -- the call performs nothing
      have hlog : log handle i (⟨p, act, m⟩ :: ts) = log handle i ts := by simp [log, hev]
      rw [hlog]
      rcases hcases with hsame | ⟨hlen, c, _, hi'⟩ | ⟨u, hu, hi'⟩
      · refine ih hA' (fun c q hq => hcur c q (hsame.symm.trans hq)) (fun hlen => hnew ?_) ht
        rw [List.getElem?_eq_none hlen] at hsame
        exact List.getElem?_eq_none_iff.mp hsame.symm
      · refine ih hA' ?_ (fun _ => hnew (Nat.le_of_eq hlen)) ht
        intro c' q hq
        rw [hi'] at hq
        obtain ⟨rfl, hq'⟩ := Thread.mk.inj (Option.some.inj hq)
        obtain rfl := Option.some.inj hq'
        rw [hnew (Nat.le_of_eq hlen)]
        exact hprog c
      · refine ih hA' ?_ (fun hlen => ?_) ht
        · intro c' q hq
          rw [hi'] at hq
          cases (Thread.mk.inj (Option.some.inj hq)).2
        · have hlt := (List.getElem?_eq_some_iff.mp hi').1
          omega

end Log

end Pool
