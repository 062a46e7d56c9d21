import Mathlib.Data.List.Dedup
import Mathlib.Data.List.Count
import Mathlib.Data.List.Perm.Subperm
import Mathlib.Logic.Function.Basic
import Mathlib.Logic.Relation
import Mathlib.Order.WellFoundedSet

/-!
# `Base.Kahn` — Kahn's topological sort

The queue algorithm over a list of nodes and a list of edges, as the common textbook code writes it: integer
in-degrees that are counted down, a first-in first-out queue, and the visiting order as the result. Nothing
is assumed of the graph but that its edges end in nodes; nodes and edges may repeat, and cycles may occur.
-/

namespace Kahn

variable {α : Type} [DecidableEq α]

/-! ## The algorithm -/

/-- The in-degree table, the queue and the order so far. -/
structure State (α : Type) where
  deg : α → Int
  queue : List α
  order : List α

/-- The keys of a table filled from `nodes`, in insertion order. -/
def keys (nodes : List α) : List α := nodes.eraseDups

/-- The successors of `v`, one for each edge and in edge order. -/
def succs (edges : List (α × α)) (v : α) : List α := (edges.filter (fun e => e.1 = v)).map Prod.snd

/-- The number of edges into `v`. -/
def indeg (edges : List (α × α)) (v : α) : Int := edges.countP (fun e => e.2 = v)

/-- One edge into `v` is taken away. -/
def relax (s : State α) (v : α) : State α :=
  let d := s.deg v - 1
  { s with deg := Function.update s.deg v d, queue := if d = 0 then s.queue ++ [v] else s.queue }

/-- `v` has left the queue. -/
def visit (edges : List (α × α)) (s : State α) (v : α) : State α :=
  (succs edges v).foldl relax { s with order := s.order ++ [v] }

/-- At most `n` visits. -/
def loop (edges : List (α × α)) : Nat → State α → State α
  | 0, s => s
  | n + 1, s =>
    match s.queue with
    | [] => s
    | v :: rest => loop edges n (visit edges { s with queue := rest } v)

/-- The state before the first visit. -/
def start (nodes : List α) (edges : List (α × α)) : State α :=
  { deg := indeg edges, queue := (keys nodes).filter (fun v => indeg edges v = 0), order := [] }

/-- The algorithm. A node is visited once at most, so as many visits as there are nodes are enough. -/
def run (nodes : List α) (edges : List (α × α)) : State α :=
  loop edges (keys nodes).length (start nodes edges)

/-! ## Keys -/

@[simp] theorem mem_keys {nodes : List α} {v : α} : v ∈ keys nodes ↔ v ∈ nodes := List.mem_eraseDups

theorem nodup_keys (nodes : List α) : (keys nodes).Nodup := by
  unfold keys
  induction h : nodes.length using Nat.strongRecOn generalizing nodes with
  | ind n ih =>
    cases nodes with
    | nil => simp
    | cons v vs =>
      rw [List.eraseDups_cons, List.nodup_cons]
      refine ⟨by simp [List.mem_eraseDups], ih _ ?_ _ rfl⟩
      have hle := List.length_filter_le (fun b => !b == v) vs
      rw [List.length_cons] at h
      omega

theorem keys_of_nodup {nodes : List α} (h : nodes.Nodup) : keys nodes = nodes := by
  unfold keys
  induction nodes with
  | nil => rfl
  | cons v vs ih =>
    rw [List.nodup_cons] at h
    rw [List.eraseDups_cons]
    have hkeep : vs.filter (fun b => !b == v) = vs := by
      rw [List.filter_eq_self]
      intro b hb
      have hne : b ≠ v := fun he => h.1 (he ▸ hb)
      simpa using hne
    rw [hkeep, ih h.2]

/-! ## One visit -/

/-- **What a visit does to the table and the queue.** Every successor loses one edge for each time it
occurs, and those that reach 0 join the queue, once each. -/
theorem relax_fold (vs : List α) (s : State α) (hle : ∀ v, (vs.count v : Int) ≤ s.deg v) :
    ∃ q : List α, q.Nodup ∧ (∀ v, v ∈ q ↔ v ∈ vs ∧ s.deg v = vs.count v) ∧
      (vs.foldl relax s).queue = s.queue ++ q ∧ (vs.foldl relax s).order = s.order ∧
      ∀ v, (vs.foldl relax s).deg v = s.deg v - vs.count v := by
  induction vs generalizing s with
  | nil => exact ⟨[], by simp⟩
  | cons x xs ih =>
    have hdeg : ∀ v, (relax s x).deg v = s.deg v - (if v = x then 1 else 0) := by
      intro v
      by_cases hv : v = x
      · subst hv; simp [relax]
      · simp [relax, hv]
    have hcount : ∀ v, ((x :: xs).count v : Int) = xs.count v + (if v = x then 1 else 0) := by
      intro v
      by_cases hv : v = x
      · subst hv; simp
      · have hne : ¬ x = v := fun h => hv h.symm
        simp [hv, hne]
    have hle' : ∀ v, (xs.count v : Int) ≤ (relax s x).deg v := by
      intro v
      have h := hle v
      rw [hcount] at h
      rw [hdeg]
      omega
    obtain ⟨q, hq, hmem, hqueue, horder, hfold⟩ := ih (relax s x) hle'
    have hend : ∀ v, (List.foldl relax (relax s x) xs).deg v = s.deg v - (x :: xs).count v := by
      intro v
      rw [hfold, hdeg, hcount]
      omega
    by_cases hz : s.deg x - 1 = 0
    · -- `x` reaches 0 with this edge: it joins the queue and does not occur again
      have hx := hle x
      rw [hcount, if_pos rfl] at hx
      have hxs : xs.count x = 0 := by omega
      have hnot : x ∉ xs := List.count_eq_zero.mp hxs
      refine ⟨x :: q, List.nodup_cons.mpr ⟨fun h => hnot ((hmem x).mp h).1, hq⟩, ?_, ?_, horder, hend⟩
      · intro v
        rw [List.mem_cons, List.mem_cons, hmem, hdeg, hcount]
        by_cases hv : v = x
        · subst hv
          rw [hxs]
          simp only [true_or, if_true, true_and, true_iff]
          omega
        · simp [hv]
      · show (List.foldl relax (relax s x) xs).queue = s.queue ++ x :: q
        rw [hqueue]
        simp [relax, hz]
    · refine ⟨q, hq, ?_, ?_, horder, hend⟩
      · intro v
        rw [List.mem_cons, hmem, hdeg, hcount]
        by_cases hv : v = x
        · subst hv
          rw [if_pos rfl]
          constructor
          · rintro ⟨_, h⟩
            exact ⟨.inl rfl, by omega⟩
          · rintro ⟨_, h⟩
            refine ⟨?_, by omega⟩
            by_contra hnot
            rw [List.count_eq_zero.mpr hnot] at h
            omega
        · simp [hv]
      · show (List.foldl relax (relax s x) xs).queue = s.queue ++ q
        rw [hqueue]
        simp [relax, hz]

theorem count_succs (edges : List (α × α)) (v w : α) :
    (succs edges v).count w = edges.countP (fun e => e.1 = v ∧ e.2 = w) := by
  unfold succs
  rw [List.count, List.countP_map, List.countP_filter]
  apply List.countP_congr
  intro e _
  simp [and_comm]

/-! ## The invariant -/

/-- The number of edges into `v` whose source is not in `order`. -/
def pending (edges : List (α × α)) (order : List α) (v : α) : Nat :=
  edges.countP (fun e => e.2 = v ∧ e.1 ∉ order)

/-- The invariant of the loop. -/
structure Inv (nodes : List α) (edges : List (α × α)) (s : State α) : Prop where
  nodup : (s.order ++ s.queue).Nodup
  sub : ∀ v ∈ s.order ++ s.queue, v ∈ nodes
  deg : ∀ v, s.deg v = pending edges s.order v
  zero : ∀ v ∈ nodes, s.deg v = 0 ↔ v ∈ s.order ++ s.queue
  prior : ∀ pre v post, s.order = pre ++ v :: post → ∀ e ∈ edges, e.2 = v → e.1 ∈ pre

theorem pending_append {edges : List (α × α)} {order : List α} {v : α} (hv : v ∉ order) (w : α) :
    (pending edges order w : Int) = pending edges (order ++ [v]) w + (succs edges v).count w := by
  rw [count_succs]
  unfold pending
  rw [← Int.natCast_add, Int.natCast_inj]
  induction edges with
  | nil => rfl
  | cons e es ih =>
    simp only [List.countP_cons, ih, List.mem_append, List.mem_singleton, decide_eq_true_eq]
    by_cases hw : e.2 = w
    · by_cases he : e.1 = v
      · have hno : e.1 ∉ order := he ▸ hv
        simp [hw, he, hv]
        omega
      · by_cases ho : e.1 ∈ order
        · simp [hw, he, ho]
        · simp [hw, he, ho]
          omega
    · simp [hw]

theorem pending_eq_zero {edges : List (α × α)} {order : List α} {v : α} :
    pending edges order v = 0 ↔ ∀ e ∈ edges, e.2 = v → e.1 ∈ order := by
  unfold pending
  rw [List.countP_eq_zero]
  constructor
  · intro h e he hv
    have hno := h e he
    simpa [hv] using hno
  · intro h e he
    simp only [decide_eq_true_eq, not_and, not_not]
    exact h e he

theorem inv_start (nodes : List α) (edges : List (α × α)) : Inv nodes edges (start nodes edges) where
  nodup := by
    show ([] ++ (keys nodes).filter _).Nodup
    exact (nodup_keys nodes).filter _
  sub v hv := by
    have hmem : v ∈ (keys nodes).filter (fun v => indeg edges v = 0) := hv
    exact mem_keys.mp (List.mem_filter.mp hmem).1
  deg v := by
    show indeg edges v = pending edges [] v
    simp [indeg, pending]
  zero v hv := by
    show indeg edges v = 0 ↔ v ∈ [] ++ (keys nodes).filter (fun v => indeg edges v = 0)
    simp [hv]
  prior pre v post h := by
    have hnil : ([] : List α) = pre ++ v :: post := h
    simp at hnil

/-- **One visit keeps the invariant.** -/
theorem Inv.visit {nodes : List α} {edges : List (α × α)} {s : State α} {v : α} {rest : List α}
    (hE : ∀ e ∈ edges, e.2 ∈ nodes) (h : Inv nodes edges s) (hq : s.queue = v :: rest) :
    Inv nodes edges (visit edges { s with queue := rest } v) ∧
      (visit edges { s with queue := rest } v).order = s.order ++ [v] := by
  have hnd := h.nodup
  rw [hq] at hnd
  have hv : v ∉ s.order := by
    intro hmem
    exact (List.nodup_append.mp hnd).2.2 v hmem v List.mem_cons_self rfl
  have hcount : ∀ w, ((succs edges v).count w : Int) ≤ s.deg w := by
    intro w
    rw [h.deg, pending_append hv]
    omega
  obtain ⟨q, hqnd, hqmem, hqueue, horder, hdeg⟩ :=
    relax_fold (succs edges v) { s with queue := rest, order := s.order ++ [v] } hcount
  have hvz : s.deg v = 0 := by
    have hin : v ∈ s.order ++ s.queue := by rw [hq]; simp
    exact (h.zero v (h.sub v hin)).mpr hin
  -- a node that joins the queue had edges left, so it was neither visited nor queued
  have hfresh : ∀ w ∈ q, w ∉ s.order ++ s.queue := by
    intro w hw hin
    obtain ⟨hws, hd⟩ := (hqmem w).mp hw
    have hpos : 0 < (succs edges v).count w := List.count_pos_iff.mpr hws
    have hz := (h.zero w (h.sub w hin)).mpr hin
    have hd' : s.deg w = (succs edges v).count w := hd
    omega
  have hqnode : ∀ w ∈ q, w ∈ nodes := by
    intro w hw
    obtain ⟨hws, _⟩ := (hqmem w).mp hw
    obtain ⟨e, he, rfl⟩ := List.mem_map.mp hws
    exact hE e (List.mem_filter.mp he).1
  have hpend : ∀ w, (Kahn.visit edges { s with queue := rest } v).deg w = pending edges (s.order ++ [v]) w := by
    intro w
    have hw : (Kahn.visit edges { s with queue := rest } v).deg w = s.deg w - (succs edges v).count w := hdeg w
    rw [hw, h.deg, pending_append hv]
    omega
  have hlist : (Kahn.visit edges { s with queue := rest } v).order ++
      (Kahn.visit edges { s with queue := rest } v).queue = (s.order ++ s.queue) ++ q := by
    have ho : (Kahn.visit edges { s with queue := rest } v).order = s.order ++ [v] := horder
    have hqu : (Kahn.visit edges { s with queue := rest } v).queue = rest ++ q := hqueue
    rw [ho, hqu, hq]
    simp
  refine ⟨⟨?_, ?_, ?_, ?_, ?_⟩, horder⟩
  · rw [hlist, List.nodup_append]
    refine ⟨h.nodup, hqnd, ?_⟩
    rintro a ha _ hb rfl
    exact hfresh a hb ha
  · intro w hw
    rw [hlist, List.mem_append] at hw
    rcases hw with hw | hw
    · exact h.sub w hw
    · exact hqnode w hw
  · intro w
    rw [hpend]
    exact congrArg (fun o => (pending edges o w : Int)) horder.symm
  · intro w hw
    have hd : (Kahn.visit edges { s with queue := rest } v).deg w = s.deg w - (succs edges v).count w := hdeg w
    rw [hd, hlist, List.mem_append, hqmem]
    constructor
    · intro hz
      by_cases hin : s.deg w = 0
      · exact .inl ((h.zero w hw).mp hin)
      · refine .inr ⟨?_, ?_⟩
        · by_contra hnot
          rw [List.count_eq_zero.mpr hnot] at hz
          omega
        · show s.deg w = _
          omega
    · rintro (hin | ⟨_, hz⟩)
      · have hz := (h.zero w hw).mpr hin
        have hle := hcount w
        omega
      · have hz' : s.deg w = (succs edges v).count w := hz
        omega
  · intro pre w post heq e he hew
    have ho : s.order ++ [v] = pre ++ w :: post := horder.symm.trans heq
    rcases List.eq_nil_or_concat post with rfl | ⟨post', x, rfl⟩
    · -- `w` is the node just visited: nothing it needs is pending
      obtain ⟨rfl, hvw⟩ := List.append_inj' ho rfl
      have hwv : v = w := List.singleton_inj.mp hvw
      subst hwv
      have hzero : pending edges s.order v = 0 := by
        have hd := h.deg v
        omega
      exact pending_eq_zero.mp hzero e he hew
    · have ho' : s.order ++ [v] = (pre ++ w :: post') ++ [x] := by
        rw [ho]
        simp
      obtain ⟨hpre, _⟩ := List.append_inj' ho' rfl
      exact h.prior pre w post' hpre e he hew

/-- **The loop keeps the invariant**, and stops before its bound only with an empty queue. -/
theorem Inv.loop {nodes : List α} {edges : List (α × α)} (hE : ∀ e ∈ edges, e.2 ∈ nodes) (n : Nat)
    {s : State α} (h : Inv nodes edges s) :
    Inv nodes edges (loop edges n s) ∧
      ((loop edges n s).queue = [] ∨ (loop edges n s).order.length = s.order.length + n) := by
  induction n generalizing s with
  | zero => exact ⟨h, .inr rfl⟩
  | succ n ih =>
    cases hq : s.queue with
    | nil =>
      have hstop : Kahn.loop edges (n + 1) s = s := by rw [Kahn.loop, hq]
      rw [hstop]
      exact ⟨h, .inl hq⟩
    | cons v rest =>
      have hgo : Kahn.loop edges (n + 1) s
          = Kahn.loop edges n (Kahn.visit edges { s with queue := rest } v) := by rw [Kahn.loop, hq]
      obtain ⟨hinv, hord⟩ := h.visit hE hq
      obtain ⟨hinv', hend⟩ := ih hinv
      rw [hgo]
      refine ⟨hinv', hend.imp id ?_⟩
      intro hlen
      rw [hlen, hord, List.length_append, List.length_singleton]
      omega

/-! ## The order -/

section Order

variable {nodes : List α} {edges : List (α × α)}

theorem inv_run (hE : ∀ e ∈ edges, e.2 ∈ nodes) : Inv nodes edges (run nodes edges) :=
  ((inv_start nodes edges).loop hE _).1

theorem length_le_keys {l : List α} (hnd : l.Nodup) (hsub : ∀ v ∈ l, v ∈ nodes) :
    l.length ≤ (keys nodes).length :=
  (List.subperm_of_subset hnd (fun v hv => mem_keys.mpr (hsub v hv))).length_le

/-- **The loop runs until the queue is empty.** -/
theorem queue_run (hE : ∀ e ∈ edges, e.2 ∈ nodes) : (run nodes edges).queue = [] := by
  have hinv : Inv nodes edges (run nodes edges) := inv_run hE
  have hend : (run nodes edges).queue = [] ∨ (run nodes edges).order.length = 0 + (keys nodes).length :=
    ((inv_start nodes edges).loop hE _).2
  rcases hend with hnil | hlen
  · exact hnil
  · have hle := length_le_keys hinv.nodup hinv.sub
    rw [List.length_append] at hle
    exact List.eq_nil_of_length_eq_zero (by omega)

theorem nodup_order (hE : ∀ e ∈ edges, e.2 ∈ nodes) : (run nodes edges).order.Nodup :=
  (inv_run hE).nodup.of_append_left

theorem order_subset (hE : ∀ e ∈ edges, e.2 ∈ nodes) : ∀ v ∈ (run nodes edges).order, v ∈ nodes :=
  fun v hv => (inv_run hE).sub v (List.mem_append_left _ hv)

/-- **The source of an edge comes before its target.** -/
theorem before (hE : ∀ e ∈ edges, e.2 ∈ nodes) {pre post : List α} {v : α}
    (h : (run nodes edges).order = pre ++ v :: post) {e : α × α} (he : e ∈ edges) (hv : e.2 = v) :
    e.1 ∈ pre :=
  (inv_run hE).prior pre v post h e he hv

theorem perm_of_length (hE : ∀ e ∈ edges, e.2 ∈ nodes)
    (hlen : (run nodes edges).order.length = nodes.length) : (run nodes edges).order.Perm nodes :=
  (List.subperm_of_subset (nodup_order hE) (order_subset hE)).perm_of_length_le (Nat.le_of_eq hlen.symm)

theorem relax_append (vs : List α) (s : State α) :
    ∃ q, (vs.foldl relax s).queue = s.queue ++ q ∧ (vs.foldl relax s).order = s.order := by
  induction vs generalizing s with
  | nil => exact ⟨[], by simp⟩
  | cons v vs ih =>
    obtain ⟨q, hq, ho⟩ := ih (relax s v)
    rw [List.foldl_cons, hq, ho]
    unfold relax
    dsimp only
    split
    · exact ⟨v :: q, by simp, rfl⟩
    · exact ⟨q, rfl, rfl⟩

theorem prefix_loop (n : Nat) {s : State α} {pre : List α} (h : pre <+: s.order ++ s.queue) :
    pre <+: (loop edges n s).order ++ (loop edges n s).queue := by
  induction n generalizing s with
  | zero => exact h
  | succ n ih =>
    cases hq : s.queue with
    | nil =>
      rw [loop, hq]
      exact h
    | cons v rest =>
      obtain ⟨q, hqueue, horder⟩ :=
        relax_append (succs edges v) { s with queue := rest, order := s.order ++ [v] }
      have hgo : loop edges (n + 1) s = loop edges n (visit edges { s with queue := rest } v) := by
        rw [loop, hq]
      rw [hgo]
      apply ih
      show pre <+: ((succs edges v).foldl relax { s with queue := rest, order := s.order ++ [v] }).order
        ++ ((succs edges v).foldl relax { s with queue := rest, order := s.order ++ [v] }).queue
      rw [hqueue, horder]
      refine h.trans ⟨q, ?_⟩
      simp [hq]

/-- **The nodes that no edge ends in come first.** -/
theorem sources_first (hE : ∀ e ∈ edges, e.2 ∈ nodes) :
    (keys nodes).filter (fun v => indeg edges v = 0) <+: (run nodes edges).order := by
  have hpre : (start nodes edges).order ++ (start nodes edges).queue <+:
      (loop edges (keys nodes).length (start nodes edges)).order
        ++ (loop edges (keys nodes).length (start nodes edges)).queue := prefix_loop _ (List.prefix_refl _)
  have hempty : (loop edges (keys nodes).length (start nodes edges)).queue = [] := queue_run hE
  rw [hempty, List.append_nil] at hpre
  exact hpre

/-! ## Cycles -/

/-- A path of edges leads from the first node to the second. -/
def Path (edges : List (α × α)) : α → α → Prop := Relation.TransGen (fun a b => (a, b) ∈ edges)

/-- No path leads from a node back to it. -/
def Acyclic (edges : List (α × α)) : Prop := ∀ v, ¬ Path edges v v

/-- **The start of a path comes before its end.** -/
theorem before_path (hE : ∀ e ∈ edges, e.2 ∈ nodes) {a v : α} (hpath : Path edges a v) {pre post : List α}
    (h : (run nodes edges).order = pre ++ v :: post) : a ∈ pre := by
  induction hpath generalizing pre post with
  | single hedge => exact before hE h hedge rfl
  | @tail mid v _ hedge ih =>
    -- the source of the last edge stands before `v`, and the start of the path before that
    obtain ⟨pre', post', rfl⟩ := List.append_of_mem (before hE h hedge rfl)
    have hsplit : (run nodes edges).order = pre' ++ mid :: (post' ++ v :: post) := by
      rw [h]
      simp
    exact List.mem_append_left _ (ih hsplit)

theorem not_path_self (hE : ∀ e ∈ edges, e.2 ∈ nodes) {v : α} (hv : v ∈ (run nodes edges).order) :
    ¬ Path edges v v := by
  intro hpath
  obtain ⟨pre, post, h⟩ := List.append_of_mem hv
  have hnodup := nodup_order hE
  rw [h, List.nodup_append] at hnodup
  exact hnodup.2.2 v (before_path hE hpath h) v List.mem_cons_self rfl

theorem Acyclic.isStrictOrder (hac : Acyclic edges) : IsStrictOrder α (Path edges) where
  irrefl := hac
  trans _ _ _ hab hbc := Relation.TransGen.trans hab hbc

/-- **All nodes of an acyclic graph are visited.** -/
theorem mem_order_of_acyclic (hE : ∀ e ∈ edges, e.1 ∈ nodes ∧ e.2 ∈ nodes) (hac : Acyclic edges) :
    ∀ v ∈ nodes, v ∈ (run nodes edges).order := by
  have htarget : ∀ e ∈ edges, e.2 ∈ nodes := fun e he => (hE e he).2
  have horder := hac.isStrictOrder
  have hwf : Set.WellFoundedOn {v | v ∈ nodes} (Path edges) := (List.finite_toSet nodes).wellFoundedOn
  intro v hv
  -- along the paths into `v`: where all sources of the edges into a node are visited, none is pending
  refine hwf.induction hv fun v hv ih => ?_
  have hzero : pending edges (run nodes edges).order v = 0 := by
    rw [pending_eq_zero]
    intro e he hev
    have hedge : (e.1, v) ∈ edges := hev ▸ he
    exact ih e.1 (hE e he).1 (Relation.TransGen.single hedge)
  have hdeg : (run nodes edges).deg v = 0 := by
    rw [(inv_run htarget).deg, hzero]
    rfl
  have hmem := ((inv_run htarget).zero v hv).mp hdeg
  rw [queue_run htarget, List.append_nil] at hmem
  exact hmem

/-- **The order is as long as the list of the nodes** exactly if the graph is acyclic. -/
theorem length_order_iff (hE : ∀ e ∈ edges, e.1 ∈ nodes ∧ e.2 ∈ nodes) (hnd : nodes.Nodup) :
    (run nodes edges).order.length = nodes.length ↔ Acyclic edges := by
  have htarget : ∀ e ∈ edges, e.2 ∈ nodes := fun e he => (hE e he).2
  constructor
  · intro hlen v hpath
    -- a cycle has an edge, and the target of an edge is a node
    have hv : v ∈ nodes := by
      cases hpath with
      | single hedge | tail _ hedge => exact (hE _ hedge).2
    exact not_path_self htarget ((perm_of_length htarget hlen).mem_iff.mpr hv) hpath
  · intro hac
    have hperm : (run nodes edges).order.Perm nodes := by
      rw [List.perm_ext_iff_of_nodup (nodup_order htarget) hnd]
      intro v
      exact ⟨order_subset htarget v, mem_order_of_acyclic hE hac v⟩
    exact hperm.length_eq

end Order

end Kahn
