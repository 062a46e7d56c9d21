import Irip.Departments.Transactions

/-!
# `Departments.Hierarchy` — when the departments stay a forest

They do if and only if a department is put below none of its own descendants, `NoDescendant`.
-/

namespace Irip.Departments

open Runs Forest

/-! ## Observations -/

/-- Following `parent_id` from any department one reaches a department without parent. -/
def RootsReached (d : Database) : Prop :=
  ∀ k r, d.get? k = some r → ∃ k' r', Reaches (parent d) k k' ∧ d.get? k' = some r' ∧ r'.parentId = none

/-- The sentinels stay, with their parents. -/
def SentinelsKept (d d' : Database) : Prop :=
  ∀ k r, d.get? k = some r → r.sentinel = true → (d'.get? k).map Department.parentId = some r.parentId

/-- The scope queries end. The visible departments are those above or below where they start from, and the batch finds
each department of the page with all that is below it. -/
structure ScopesAnswer (d : Database) : Prop where
  visible : ∀ (deptId : Option Uuid) (actor : Option (List Uuid)),
    ∃ n rows, computeVisibleDeptIds d n deptId actor = some rows ∧
      ∀ x, x ∈ rows ↔ ∃ a ∈ deptId.toList ++ actor.getD [], Reaches (parent d) x a ∨ Reaches (parent d) a x
  descendants : ∀ deptIds : List Uuid, ∃ n rows, descendants d n deptIds = some rows ∧
    ∀ r x, (r, x) ∈ rows ↔ r ∈ deptIds ∧ (d.get? r).isSome = true ∧ Reaches (parent d) x r

/-- What a step of the service owes to the hierarchy. -/
structure KeepsForest (t : Transition Sys Step) : Prop where
  roots : RootsReached t.post.committed
  sentinels : SentinelsKept t.pre.committed t.post.committed
  scopes : ScopesAnswer t.post.committed

/-! ## Scopes -/

/-- `parent_id` refers to a department: the foreign key of the table. -/
def Referential (d : Database) : Prop :=
  ∀ k r p, d.get? k = some r → r.parentId = some p → (d.get? p).isSome = true

/-- A department table as it should be. -/
structure Proper (d : Database) : Prop where
  referential : Referential d
  roots : RootsReached d

variable {d d' : Database}

variable {p a b id : Uuid}

theorem parent_eq_some {k : Uuid} : parent d k = some p ↔ ∃ r, d.get? k = some r ∧ r.parentId = some p :=
  Option.bind_eq_some_iff

theorem Proper.rooted (h : Proper d) (k : Uuid) : Rooted (parent d) k := by
  cases hk : d.get? k with
  | none => exact .root (by rw [parent, hk]; rfl)
  | some r =>
    obtain ⟨k', r', hway, hk', hnone⟩ := h.roots k r hk
    refine rooted_of_reaches hway (.root ?_)
    rw [parent, hk']
    exact hnone

theorem proper_of_rooted (hfk : Referential d) (h : ∀ k r, d.get? k = some r → Rooted (parent d) k) : Proper d := by
  refine ⟨hfk, fun k r hk => ?_⟩
  have hrooted := h k r hk
  clear h
  induction hrooted generalizing r with
  | @root k hnone =>
    refine ⟨k, r, .refl, hk, ?_⟩
    rw [parent, hk] at hnone
    exact hnone
  | @child k p hp _ ih =>
    obtain ⟨r₀, hr₀, hparent⟩ := parent_eq_some.mp hp
    obtain ⟨r', hr'⟩ := Option.isSome_iff_exists.mp (hfk k r₀ p hr₀ hparent)
    obtain ⟨k', r'', hway, hk', hnone⟩ := ih r' hr'
    exact ⟨k', r'', .head hp hway, hk', hnone⟩

theorem leads_children : Leads (children d) a b ↔ Above (parent d) b a := by
  show b ∈ children d a ↔ parent d b = some a
  rw [children, Dict.mem_keysWhere, parent_eq_some]
  simp only [decide_eq_true_eq]

theorem leads_parents : Leads (parents d) a b ↔ Above (parent d) a b :=
  Option.mem_toList

theorem reaches_children : Relation.ReflTransGen (Leads (children d)) a b ↔ Reaches (parent d) b a := by
  have hswap : Function.swap (Leads (children d)) = Above (parent d) :=
    funext₂ fun _ _ => propext leads_children
  rw [Reaches, ← Relation.reflTransGen_swap, hswap]

theorem reaches_parents : Relation.ReflTransGen (Leads (parents d)) a b ↔ Reaches (parent d) a b := by
  have hsame : Leads (parents d) = Above (parent d) := funext₂ fun _ _ => propext leads_parents
  rw [Reaches, hsame]

theorem Proper.acc_children (h : Proper d) (a : Uuid) : Acc (fun b a => Leads (children d) a b) a := by
  have hkeys : ∀ x y, parent d x = some y → x ∈ d.keys := by
    intro x y hxy
    obtain ⟨r, hr, -⟩ := parent_eq_some.mp hxy
    exact Dict.mem_keys_iff.mpr ⟨r, hr⟩
  exact Subrelation.accessible (fun hb => leads_children.mp hb) (acc_down hkeys h.rooted a)

theorem Proper.acc_parents (h : Proper d) (a : Uuid) : Acc (fun b a => Leads (parents d) a b) a :=
  Subrelation.accessible (fun hb => leads_parents.mp hb) (acc_up (h.rooted a))

theorem Proper.scope (h : Proper d) (base : List Uuid) : ∃ n rows, scope d n base = some rows ∧
    ∀ x, x ∈ rows ↔ ∃ a ∈ base, Reaches (parent d) x a ∨ Relation.TransGen (Above (parent d)) a x := by
  obtain ⟨down, n, hdown⟩ := unionAll_terminates (fun a (_ : a ∈ base) => h.acc_children a)
  obtain ⟨up, m, hup⟩ := unionAll_terminates (fun a (_ : a ∈ base.flatMap (parents d)) => h.acc_parents a)
  refine ⟨max n m, down ++ up, ?_, ?_⟩
  · rw [Departments.scope, unionAll_mono hdown (Nat.le_max_left n m), unionAll_mono hup (Nat.le_max_right n m)]
    rfl
  · intro x
    rw [List.mem_append, mem_of_answers ⟨n, hdown⟩, mem_of_answers ⟨m, hup⟩]
    constructor
    · rintro (⟨a, ha, hway⟩ | ⟨p, hp, hway⟩)
      · exact ⟨a, ha, .inl (reaches_children.mp hway)⟩
      · obtain ⟨a, ha, hap⟩ := List.mem_flatMap.mp hp
        exact ⟨a, ha, .inr (.head' (leads_parents.mp hap) (reaches_parents.mp hway))⟩
    · rintro ⟨a, ha, hway | hway⟩
      · exact .inl ⟨a, ha, reaches_children.mpr hway⟩
      · obtain ⟨p, hap, hrest⟩ := Relation.TransGen.head'_iff.mp hway
        exact .inr ⟨p, List.mem_flatMap.mpr ⟨a, ha, leads_parents.mpr hap⟩, reaches_parents.mpr hrest⟩

theorem scope_mono {n m : Nat} {base rows : List Uuid} (h : Departments.scope d n base = some rows) (hnm : n ≤ m) :
    Departments.scope d m base = some rows := by
  unfold Departments.scope at h ⊢
  obtain ⟨down, hdown, hrest⟩ := Option.bind_eq_some_iff.mp h
  obtain ⟨up, hup, hrows⟩ := Option.bind_eq_some_iff.mp hrest
  rw [unionAll_mono hdown hnm, unionAll_mono hup hnm]
  exact hrows

theorem reaches_or_iff {x : Uuid} : (Reaches (parent d) x a ∨ Relation.TransGen (Above (parent d)) a x) ↔
      (Reaches (parent d) x a ∨ Reaches (parent d) a x) := by
  constructor
  · exact fun h => h.imp_right Relation.TransGen.to_reflTransGen
  · rintro (h | h)
    · exact .inl h
    · rcases Relation.reflTransGen_iff_eq_or_transGen.mp h with rfl | h
      · exact .inl .refl
      · exact .inr h

theorem Proper.eq_of_absent (h : Proper d) {x : Uuid} (ha : d.get? a = none)
    (hx : Reaches (parent d) x a ∨ Reaches (parent d) a x) : x = a := by
  rcases hx with hway | hway
  · cases hway with
    | refl => rfl
    | tail _ hstep =>
      obtain ⟨r, hr, hparent⟩ := parent_eq_some.mp hstep
      have hsome := h.referential _ r a hr hparent
      rw [ha] at hsome
      cases hsome
  · cases hway using Relation.ReflTransGen.head_induction_on with
    | refl => rfl
    | head hstep _ =>
      obtain ⟨r, hr, -⟩ := parent_eq_some.mp hstep
      rw [ha] at hr
      cases hr

/-- so that `_DEPT_SCOPE_SQL` answers what is above and below a department, and the department. -/
theorem Proper.deptScope (h : Proper d) (deptId : Uuid) : ∃ n rows, deptScope d n deptId = some rows ∧
    ∀ x, x ∈ deptId :: rows ↔ Reaches (parent d) x deptId ∨ Reaches (parent d) deptId x := by
  obtain ⟨n, rows, hrows, hmem⟩ := h.scope (if (d.get? deptId).isSome then [deptId] else [])
  refine ⟨n, rows, hrows, fun x => ?_⟩
  rw [List.mem_cons, hmem]
  cases hfound : d.get? deptId with
  | none =>
    have hnone : ¬ ∃ a ∈ (if (none : Option Department).isSome then [deptId] else []),
        Reaches (parent d) x a ∨ Relation.TransGen (Above (parent d)) a x := by
      rintro ⟨a, ha, -⟩
      cases ha
    constructor
    · rintro (rfl | hx)
      · exact .inl .refl
      · exact absurd hx hnone
    · exact fun hx => .inl (h.eq_of_absent hfound hx)
  | some r =>
    rw [← reaches_or_iff]
    show (x = deptId ∨ ∃ a ∈ [deptId], _) ↔ _
    constructor
    · rintro (rfl | ⟨a, ha, hx⟩)
      · exact .inl .refl
      · exact List.mem_singleton.mp ha ▸ hx
    · exact fun hx => .inr ⟨deptId, List.mem_singleton_self deptId, hx⟩

theorem Proper.currentVisibleDeptIds (h : Proper d) (userDepts : List Uuid) :
    ∃ n rows, currentVisibleDeptIds d n userDepts = some rows ∧
      ∀ x, x ∈ rows ↔ ∃ a ∈ userDepts, Reaches (parent d) x a ∨ Reaches (parent d) a x := by
  obtain ⟨n, rows, hrows, hmem⟩ := h.scope userDepts
  refine ⟨n, rows, hrows, fun x => (hmem x).trans ?_⟩
  exact exists_congr fun a => and_congr_right fun _ => reaches_or_iff

theorem Proper.visible (h : Proper d) (deptId : Option Uuid) (actor : Option (List Uuid)) :
    ∃ n rows, computeVisibleDeptIds d n deptId actor = some rows ∧
      ∀ x, x ∈ rows ↔ ∃ a ∈ deptId.toList ++ actor.getD [], Reaches (parent d) x a ∨ Reaches (parent d) a x := by
  cases actor with
  | none =>
    cases deptId with
    | none => exact ⟨0, [], rfl, fun x => by simp⟩
    | some deptId =>
      obtain ⟨n, rows, hrows, hmem⟩ := h.deptScope deptId
      refine ⟨n, deptId :: rows, ?_, fun x => ?_⟩
      · rw [computeVisibleDeptIds, hrows]
        rfl
      · rw [hmem]
        simp
  | some userDepts =>
    obtain ⟨n, rows, hrows, hmem⟩ := h.currentVisibleDeptIds userDepts
    cases deptId with
    | none => exact ⟨n, rows, hrows, fun x => by rw [hmem]; simp⟩
    | some deptId =>
      obtain ⟨m, rows', hrows', hmem'⟩ := h.deptScope deptId
      have hn := scope_mono hrows (Nat.le_max_left n m)
      have hm := scope_mono hrows' (Nat.le_max_right n m)
      refine ⟨max n m, deptId :: rows ++ rows', ?_, fun x => ?_⟩
      · rw [computeVisibleDeptIds, Departments.currentVisibleDeptIds, hn, Departments.deptScope, hm]
        rfl
      · have hsplit : x ∈ deptId :: rows ++ rows' ↔ x ∈ rows ∨ x ∈ deptId :: rows' := by
          simp only [List.cons_append, List.mem_cons, List.mem_append]
          tauto
        rw [hsplit, hmem, hmem']
        simp only [Option.toList_some, Option.getD_some, List.cons_append, List.nil_append, List.mem_cons,
          exists_eq_or_imp]
        exact or_comm

theorem leads_pairs {e f : Uuid × Uuid} :
    Leads (fun e => (children d e.2).map (fun child => (e.1, child))) e f ↔ f.1 = e.1 ∧ Leads (children d) e.2 f.2 := by
  obtain ⟨r, a⟩ := e
  obtain ⟨r', b⟩ := f
  show (r', b) ∈ (children d a).map (fun child => (r, child)) ↔ r' = r ∧ b ∈ children d a
  rw [List.mem_map]
  constructor
  · rintro ⟨child, hchild, heq⟩
    obtain ⟨rfl, rfl⟩ := Prod.mk.inj heq
    exact ⟨rfl, hchild⟩
  · rintro ⟨rfl, hb⟩
    exact ⟨b, hb, rfl⟩

theorem reaches_pairs {e f : Uuid × Uuid} :
    Relation.ReflTransGen (Leads (fun e => (children d e.2).map (fun child => (e.1, child)))) e f ↔
      f.1 = e.1 ∧ Reaches (parent d) f.2 e.2 := by
  rw [← reaches_children]
  constructor
  · intro h
    induction h with
    | refl => exact ⟨rfl, .refl⟩
    | tail _ hstep ih =>
      obtain ⟨heq, hleads⟩ := leads_pairs.mp hstep
      exact ⟨heq.trans ih.1, ih.2.tail hleads⟩
  · obtain ⟨r, a⟩ := e
    obtain ⟨r', b⟩ := f
    rintro ⟨rfl, hway : Relation.ReflTransGen (Leads (children d)) a b⟩
    induction hway with
    | refl => exact .refl
    | tail _ hstep ih => exact ih.tail (leads_pairs.mpr ⟨rfl, hstep⟩)

theorem Proper.descendants (h : Proper d) (deptIds : List Uuid) : ∃ n rows, descendants d n deptIds = some rows ∧
    ∀ r x, (r, x) ∈ rows ↔ r ∈ deptIds ∧ (d.get? r).isSome = true ∧ Reaches (parent d) x r := by
  have hacc : ∀ e : Uuid × Uuid,
      Acc (fun f e => Leads (fun e => (children d e.2).map (fun child => (e.1, child))) e f) e := by
    intro e
    have hsecond := InvImage.accessible (r := fun b a => Leads (children d) a b) Prod.snd (h.acc_children e.2)
    exact Subrelation.accessible (fun hf => (leads_pairs.mp hf).2) hsecond
  obtain ⟨rows, n, hn⟩ := unionAll_terminates (fun e (_ : e ∈ (d.keys.filter (fun id => id ∈ deptIds)).map
    (fun id => (id, id))) => hacc e)
  refine ⟨n, rows, hn, fun r x => ?_⟩
  rw [mem_of_answers ⟨n, hn⟩]
  constructor
  · rintro ⟨e, he, hway⟩
    obtain ⟨id, hid, rfl⟩ := List.mem_map.mp he
    obtain ⟨rfl, hreach⟩ := reaches_pairs.mp hway
    obtain ⟨hkey, hin⟩ := List.mem_filter.mp hid
    obtain ⟨row, hrow⟩ := Dict.mem_keys_iff.mp hkey
    exact ⟨of_decide_eq_true hin, by rw [hrow]; rfl, hreach⟩
  · rintro ⟨hin, hsome, hreach⟩
    have hkey : r ∈ d.keys := Dict.mem_keys_iff.mpr (Option.isSome_iff_exists.mp hsome)
    refine ⟨(r, r), List.mem_map.mpr ⟨r, List.mem_filter.mpr ⟨hkey, decide_eq_true hin⟩, rfl⟩, ?_⟩
    exact reaches_pairs.mpr ⟨rfl, hreach⟩

/-- **In a proper table the scope queries end and answer what is above and below.** -/
theorem Proper.scopesAnswer (h : Proper d) : ScopesAnswer d := ⟨h.visible, h.descendants⟩

/-! ## The condition -/

/-- The department a write moves, and where to. -/
def Write.reparents : Write → Option (Uuid × Uuid)
  | .update id row true => row.parentId.map (fun p => (id, p))
  | _ => none

/-- No write moves a department below itself or below one of its descendants. -/
def Downless (d : Database) (ws : List Write) : Prop := ∀ w ∈ ws, ∀ e ∈ w.reparents, ¬ Reaches (parent d) e.2 e.1

/-- A transaction that commits moves no department below itself or below one of its descendants, as the departments
stand then. -/
def NoDescendant (t : Transition Sys Step) : Prop :=
  ∀ i c ws v, t.act = .commit i → t.pre.sessions[i]? = some ⟨c, ws, some (.ret v)⟩ → Downless t.pre.committed ws

/-! ## Commits -/

theorem parent_set (id : Uuid) (row : Department) :
    parent (d.set id row) = Function.update (parent d) id row.parentId := by
  funext k
  by_cases hk : k = id
  · simp [parent, hk]
  · simp [parent, hk]

theorem parent_modify {old : Department} (row : Department) (hold : d.get? id = some old) :
    parent (d.modify id (fun _ => row)) = Function.update (parent d) id row.parentId := by
  funext k
  by_cases hk : k = id
  · subst hk
    simp [parent, hold]
  · simp [parent, hk]

theorem parent_erase (id : Uuid) : parent (d.erase id) = Function.update (parent d) id none := by
  funext k
  by_cases hk : k = id
  · simp [parent, hk]
  · simp [parent, hk]

theorem Referential.of_row {row : Department} (h : Referential d) (hid : d'.get? id = some row)
    (hrest : ∀ k, k ≠ id → d'.get? k = d.get? k) (hparent : ∀ p, row.parentId = some p → (d.get? p).isSome = true) :
    Referential d' := by
  have hkeep : ∀ p, (d.get? p).isSome = true → (d'.get? p).isSome = true := by
    intro p hp
    by_cases hpid : p = id
    · rw [hpid, hid]
      rfl
    · rw [hrest p hpid]
      exact hp
  intro k r p hr hp
  by_cases hk : k = id
  · subst hk
    rw [hid] at hr
    obtain rfl := Option.some.inj hr
    exact hkeep p (hparent p hp)
  · rw [hrest k hk] at hr
    exact hkeep p (h k r p hr hp)

/-- A department that moves below itself or below one of its descendants comes to no root any more. -/
theorem not_roots_of_update (hproper : Proper d) (hfk : Referential d')
    (hparent : parent d' = Function.update (parent d) id (some p)) (hway : Reaches (parent d) p id) :
    ¬ RootsReached d' := by
  intro hroots
  have hrooted := Proper.rooted ⟨hfk, hroots⟩ id
  rw [hparent] at hrooted
  exact not_rooted_update hway hrooted

theorem Committed.referential {ws : List Write} (h : Committed d ws) (hd : Referential d) :
    Referential (engine.view ws d) := by
  cases h with
  | @insert id row new hparent =>
    show Referential (d.set id row)
    exact hd.of_row (by rw [Dict.get?_set, if_pos rfl]) (fun k hk => by rw [Dict.get?_set, if_neg hk]) hparent
  | @update id old row moved found code protect stays hparent =>
    show Referential (d.modify id (fun _ => row))
    have hrow : (d.modify id (fun _ => row)).get? id = some row := by
      rw [Dict.get?_modify, if_pos rfl, found]
      rfl
    refine hd.of_row hrow (fun k hk => by rw [Dict.get?_modify, if_neg hk]) fun p hp => ?_
    cases hm : moved with
    | true => exact hparent hm p hp
    | false => exact hd id old p found (stays hm ▸ hp)
  | @delete id old found plain leaf =>
    show Referential (d.erase id)
    intro k r p hr hp
    rw [Dict.get?_erase] at hr
    split at hr
    · cases hr
    · have hne : ¬ p = id := fun heq => leaf k r hr (heq ▸ hp)
      rw [Dict.get?_erase, if_neg hne]
      exact hd k r p hr hp

theorem Committed.proper_iff {ws : List Write} (h : Committed d ws) (hd : Proper d) :
    Proper (engine.view ws d) ↔ Downless d ws := by
  have hfk := h.referential hd.referential
  cases h with
  | @insert id row new hparent =>
    refine ⟨fun _ w hw e he => ?_, fun _ => ?_⟩
    · obtain rfl := List.mem_singleton.mp hw
      cases he
    show Proper (d.set id row)
    refine proper_of_rooted hfk fun k r _ => ?_
    rw [parent_set]
    -- nobody refers to a department that is not there yet
    cases hp : row.parentId with
    | none => exact rooted_detach hd.rooted k
    | some p =>
      refine rooted_update hd.rooted (fun hway => ?_) k
      have heq : p = id := hd.eq_of_absent new (.inl hway)
      have hsome := hparent p hp
      rw [heq, new] at hsome
      cases hsome
  | @update id old row moved found code protect stays hparent =>
    have hupdate := parent_modify row found
    show Proper (d.modify id (fun _ => row)) ↔ _
    constructor
    · intro hafter w hw e he hway
      obtain rfl := List.mem_singleton.mp hw
      cases hm : moved with
      | true =>
        subst hm
        obtain ⟨p, hp, rfl⟩ := Option.map_eq_some_iff.mp he
        rw [hp] at hupdate
        exact not_roots_of_update hd hfk hupdate hway hafter.roots
      | false =>
        subst hm
        cases he
    · intro hno
      refine proper_of_rooted hfk fun k r _ => ?_
      rw [hupdate]
      cases hp : row.parentId with
      | none => exact rooted_detach hd.rooted k
      | some p =>
        refine rooted_update hd.rooted ?_ k
        cases hm : moved with
        | true =>
          subst hm
          refine hno _ List.mem_cons_self (id, p) ?_
          rw [Write.reparents, hp]
          rfl
        | false =>
          -- the parent is the old one, and no department is above itself
          have hup : parent d id = some p := by
            rw [parent, found, ← hp, stays hm]
            rfl
          intro hway
          exact (hd.rooted id).not_cycle (.head' hup hway)
  | @delete id old found plain leaf =>
    refine ⟨fun _ w hw e he => ?_, fun _ => ?_⟩
    · obtain rfl := List.mem_singleton.mp hw
      cases he
    show Proper (d.erase id)
    refine proper_of_rooted hfk fun k r _ => ?_
    rw [parent_erase]
    exact rooted_detach hd.rooted k

theorem Committed.sentinelsKept {ws : List Write} (h : Committed d ws) : SentinelsKept d (engine.view ws d) := by
  intro k r hr hsentinel
  cases h with
  | @insert id row new hparent =>
    have hne : ¬ k = id := by
      rintro rfl
      rw [new] at hr
      cases hr
    show ((d.set id row).get? k).map Department.parentId = some r.parentId
    rw [Dict.get?_set, if_neg hne, hr]
    rfl
  | @update id old row moved found code protect stays hparent =>
    show ((d.modify id (fun _ => row)).get? k).map Department.parentId = some r.parentId
    by_cases hk : k = id
    · subst hk
      rw [found] at hr
      obtain rfl := Option.some.inj hr
      rw [Dict.get?_modify, if_pos rfl, found, ← protect hsentinel]
      rfl
    · rw [Dict.get?_modify, if_neg hk, hr]
      rfl
  | @delete id old found plain leaf =>
    have hne : ¬ k = id := by
      rintro rfl
      rw [found] at hr
      obtain rfl := Option.some.inj hr
      rw [plain] at hsentinel
      cases hsentinel
    show ((d.erase id).get? k).map Department.parentId = some r.parentId
    rw [Dict.get?_erase, if_neg hne, hr]
    rfl

theorem not_reaches_of_answers {rows : List Uuid} (h : Answers (parents d) [p] rows) (hid : id ∉ rows) :
    ¬ Reaches (parent d) p id := by
  intro hway
  exact hid ((mem_of_answers h).mpr ⟨p, List.mem_singleton_self p, reaches_parents.mpr hway⟩)

/-! ## Runs -/

/-- The state the service starts in. -/
def start (d : Database) : Sys := ⟨d, []⟩

theorem sound_start (d : Database) : Sound (start d) := by
  constructor
  · intro i s hi
    cases hi
  · intro i j s t _ hi
    cases hi

theorem keepsForest_step {p p' : Sys} {act : Step} (hp : Sound p) (hd : Proper p.committed)
    (h : step p act = some p') :
    (KeepsForest ⟨p, act, p'⟩ ↔ NoDescendant ⟨p, act, p'⟩) ∧ (NoDescendant ⟨p, act, p'⟩ → Proper p'.committed) := by
  have hkeeps : Proper p'.committed → SentinelsKept p.committed p'.committed → KeepsForest ⟨p, act, p'⟩ :=
    fun hd' hkept => ⟨hd'.roots, hkept, hd'.scopesAnswer⟩
  by_cases hact : ∃ i, act = .commit i
  · obtain ⟨i, rfl⟩ := hact
    obtain ⟨c, ws, v, hi, hcommitted, heq⟩ := committed_of_commit hp h
    have hproper := hcommitted.proper_iff hd
    have hcond : NoDescendant ⟨p, .commit i, p'⟩ ↔ Proper p'.committed := by
      rw [heq, hproper]
      constructor
      · exact fun hno => hno i c ws v rfl hi
      · intro hno j c' ws' v' hj hi'
        obtain rfl : i = j := by simpa using hj
        obtain ⟨rfl, rfl, -⟩ : c = c' ∧ ws = ws' ∧ v = v' := by simpa [hi] using hi'
        exact hno
    refine ⟨⟨fun hforest => hcond.mpr ?_, fun hno => ?_⟩, hcond.mp⟩
    · -- the foreign key holds in any case
      refine ⟨?_, hforest.roots⟩
      rw [heq]
      exact hcommitted.referential hd.referential
    · refine hkeeps (hcond.mp hno) ?_
      rw [heq]
      exact hcommitted.sentinelsKept
  · have hsame := Server.committed_step h (fun i heq => hact ⟨i, heq⟩)
    have hno : NoDescendant ⟨p, act, p'⟩ := fun i _ _ _ heq => absurd ⟨i, heq⟩ hact
    have hd' : Proper p'.committed := hsame ▸ hd
    refine ⟨iff_of_true (hkeeps hd' ?_) hno, fun _ => hd'⟩
    intro k r hr _
    rw [hsame, hr]
    rfl

/-- **The departments stay a forest in exactly those runs that put no department below itself or one of its
descendants.** -/
theorem keepsForest_iff {d : Database} {ts : List (Transition Sys Step)} {p : Sys} (hr : Run step (start d) ts p)
    (hd : Proper d) : (∀ t ∈ ts, KeepsForest t) ↔ ∀ t ∈ ts, NoDescendant t := by
  refine hr.forall_congr (I := fun p => Sound p ∧ Proper p.committed) ?_ ⟨sound_start d, hd⟩
  intro p act p' h hI
  obtain ⟨hiff, hkeep⟩ := keepsForest_step hI.1 hI.2 h
  exact ⟨hiff, fun hno => ⟨sound_step hI.1 h, hkeep hno⟩⟩

/-! ## Scopes of a cycle -/

/-! ### Two runs -/

/-- The departments of a new installation, with a laboratory. -/
def seed : Database := .ofList
  [("r", { code := "root", displayName := "根部门" }),
   ("s", { code := "system", displayName := "系统", parentId := some "r" }),
   ("lab", { code := "chem", displayName := "化学实验室", parentId := some "r" })]

theorem proper_seed : Proper seed := by
  have hall : ∀ k r, seed.get? k = some r → r.parentId = none ∨ r.parentId = some "r" := by
    intro k r hr
    have hmem := Dict.get?_eq_some_iff.mp hr
    have hrows : ∀ e ∈ seed.entries, e.2.parentId = none ∨ e.2.parentId = some "r" := by decide +kernel
    exact hrows _ hmem
  have hroot : parent seed "r" = none := by decide +kernel
  refine proper_of_rooted (fun k r p hr hp => ?_) fun k r hr => ?_
  · rcases hall k r hr with hnone | hsome
    · rw [hp] at hnone
      cases hnone
    · rw [hp] at hsome
      obtain rfl := Option.some.inj hsome
      decide +kernel
  · rcases hall k r hr with hnone | hsome
    · exact .root (by rw [parent, hr]; exact hnone)
    · exact .child (parent_eq_some.mpr ⟨r, hr, hsome⟩) (.root hroot)

/-- A department is created below the laboratory, and the laboratory is put below the system's. -/
def moved : List (Transition Sys Step) := play step (start seed)
  [.call (.create "xrd" "衍射" none 1 (some "lab")), .step 0 {}, .step 0 { id := "x" }, .step 0 {}, .commit 0,
   .call (.update "lab" { displayName := "化学实验室", parentId := some "s" }), .step 1 {}, .step 1 {}, .commit 1]

/-- The laboratory is put below itself. -/
def selfParented : List (Transition Sys Step) := play step (start seed)
  [.call (.update "lab" { displayName := "化学实验室", parentId := some "lab" }), .step 0 {}, .step 0 {}, .commit 0]

theorem keepsForest_moved : (moved.map (fun t => parent t.post.committed "lab")).getLast? = some (some "s") ∧
    ∀ t ∈ moved, KeepsForest t := by
  refine ⟨by decide +kernel, (keepsForest_iff (play_run (start seed) _) proper_seed).mpr ?_⟩
  have hup : ∀ t ∈ moved, ∀ s ∈ t.pre.sessions, ∀ w ∈ s.writes, ∀ e ∈ w.reparents,
      ∃ rows ∈ unionAll (parents t.pre.committed) 4 [e.2], e.1 ∉ rows := by decide +kernel
  intro t ht i c ws v _ hi w hw e he
  obtain ⟨rows, hrows, hno⟩ := hup t ht _ (List.mem_of_getElem? hi) w hw e he
  exact not_reaches_of_answers ⟨4, hrows⟩ hno

theorem not_keepsForest : ¬ ∀ t ∈ selfParented, KeepsForest t := by
  intro hall
  have hlast : ∃ t ∈ selfParented, parent t.post.committed "lab" = some "lab" := by decide +kernel
  obtain ⟨t, ht, hself⟩ := hlast
  obtain ⟨r, hr, -⟩ := parent_eq_some.mp hself
  obtain ⟨k, r', hway, hk, hnone⟩ := (hall t ht).roots "lab" r hr
  have hroot : Rooted (parent t.post.committed) "lab" :=
    rooted_of_reaches hway (.root (by rw [parent, hk]; exact hnone))
  exact hroot.not_cycle (.single hself)

end Irip.Departments
