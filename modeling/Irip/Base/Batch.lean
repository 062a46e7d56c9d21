import Mathlib.Data.Finset.Card
import Mathlib.Data.List.Sort
import Mathlib.Data.Prod.Lex
import Mathlib.Order.Basic

/-!
# `Base.Batch` — rounds of bounded size over a queue in which some items stay

A round takes the `b` pending items with the smallest keys, ties broken in any way, serves the good ones
and leaves the others where they are. The others are met again in the next round, before everything that
is behind them.
-/

namespace Batches

variable {ι κ : Type} [DecidableEq ι] [LinearOrder κ]

/-! ## Rounds -/

/-- The list `sel` is a choice of the first `b` pending items in the order of their keys. -/
structure Batch (key : ι → κ) (b : Nat) (pending : Finset ι) (sel : List ι) : Prop where
  nodup : sel.Nodup
  sub : ∀ i ∈ sel, i ∈ pending
  size : sel.length = min b pending.card
  least : ∀ i ∈ sel, ∀ k ∈ pending, k ∉ sel → key i ≤ key k
  sorted : sel.Pairwise (fun i k => key i ≤ key k)

/-- What is pending after a round: the good items it has taken are gone. -/
def serve (good : ι → Bool) (pending : Finset ι) (sel : List ι) : Finset ι :=
  pending.filter (fun i => ¬ (i ∈ sel ∧ good i = true))

/-- `n` rounds. -/
inductive Rounds (key : ι → κ) (b : Nat) (good : ι → Bool) : Nat → Finset ι → Finset ι → Prop where
  | zero {p} : Rounds key b good 0 p p
  | succ {n p q sel} : Batch key b p sel → Rounds key b good n (serve good p sel) q →
      Rounds key b good (n + 1) p q

variable {key : ι → κ} {b : Nat} {good : ι → Bool}

theorem mem_serve {p : Finset ι} {sel : List ι} {i : ι} :
    i ∈ serve good p sel ↔ i ∈ p ∧ ¬ (i ∈ sel ∧ good i = true) := Finset.mem_filter

theorem serve_subset (p : Finset ι) (sel : List ι) : serve good p sel ⊆ p := Finset.filter_subset _ _

theorem Rounds.subset {n : Nat} {p q : Finset ι} (h : Rounds key b good n p q) : q ⊆ p := by
  induction h with
  | zero => exact fun _ hi => hi
  | succ _ _ ih => exact ih.trans (serve_subset _ _)

theorem Batch.of_not_mem {p : Finset ι} {sel : List ι} (h : Batch key b p sel) {e : ι} (he : e ∈ p)
    (hout : e ∉ sel) : sel.length = b ∧ ∀ i ∈ sel, key i ≤ key e := by
  refine ⟨?_, fun i hi => h.least i hi e he hout⟩
  have hsub : sel.toFinset ⊆ p.erase e := by
    intro i hi
    rw [List.mem_toFinset] at hi
    exact Finset.mem_erase.mpr ⟨fun heq => hout (heq ▸ hi), h.sub i hi⟩
  have hcard := Finset.card_le_card hsub
  rw [List.toFinset_card_of_nodup h.nodup, Finset.card_erase_of_mem he] at hcard
  have hpos : 0 < p.card := Finset.card_pos.mpr ⟨e, he⟩
  have hsize := h.size
  omega

/-! ## Ahead of an item -/

/-- The stuck items that may be taken before `e`. -/
def stuckAhead (key : ι → κ) (good : ι → Bool) (p : Finset ι) (e : ι) : Finset ι :=
  p.filter (fun i => good i = false ∧ key i ≤ key e)

/-- The good items that may be taken before `e`, with `e` among them. -/
def goodAhead (key : ι → κ) (good : ι → Bool) (p : Finset ι) (e : ι) : Finset ι :=
  p.filter (fun i => good i = true ∧ key i ≤ key e)

theorem stuckAhead_serve (p : Finset ι) (sel : List ι) (e : ι) :
    stuckAhead key good (serve good p sel) e = stuckAhead key good p e := by
  ext i
  simp only [stuckAhead, Finset.mem_filter, mem_serve]
  constructor
  · rintro ⟨⟨hp, -⟩, hi⟩; exact ⟨hp, hi⟩
  · rintro ⟨hp, hbad, hkey⟩
    exact ⟨⟨hp, fun h => by simp [hbad] at h⟩, hbad, hkey⟩

/-! ## Progress -/

/-- **One round** that leaves `e` out serves a good item ahead of it, if fewer than `b` are stuck there. -/
theorem goodAhead_serve_lt {p : Finset ι} {sel : List ι} {e : ι} (h : Batch key b p sel) (he : e ∈ p)
    (hout : e ∉ sel) (hstuck : (stuckAhead key good p e).card < b) :
    (goodAhead key good (serve good p sel) e).card < (goodAhead key good p e).card := by
  obtain ⟨hfull, hle⟩ := h.of_not_mem he hout
  -- the batch does not fit into the stuck items ahead of `e`
  have hserved : ∃ i ∈ sel, good i = true := by
    by_contra hnone
    have hsub : sel.toFinset ⊆ stuckAhead key good p e := by
      intro i hi
      rw [List.mem_toFinset] at hi
      have hbad : good i = false := Bool.eq_false_iff.mpr (fun hg => hnone ⟨i, hi, hg⟩)
      exact Finset.mem_filter.mpr ⟨h.sub i hi, hbad, hle i hi⟩
    have hcard := Finset.card_le_card hsub
    rw [List.toFinset_card_of_nodup h.nodup, hfull] at hcard
    omega
  obtain ⟨i, hi, hgood⟩ := hserved
  apply Finset.card_lt_card
  have hsub : goodAhead key good (serve good p sel) e ⊆ goodAhead key good p e :=
    Finset.filter_subset_filter _ (serve_subset p sel)
  rw [Finset.ssubset_iff_of_subset hsub]
  refine ⟨i, Finset.mem_filter.mpr ⟨h.sub i hi, hgood, hle i hi⟩, ?_⟩
  intro hmem
  exact (mem_serve.mp (Finset.mem_filter.mp hmem).1).2 ⟨hi, hgood⟩

/-- **Progress.** With fewer than `b` stuck items ahead of it, a good item is served within as many rounds
as there are good items ahead. -/
theorem not_mem_of_rounds {n : Nat} {p q : Finset ι} (h : Rounds key b good n p q) {e : ι}
    (hgood : good e = true) (hstuck : (stuckAhead key good p e).card < b)
    (hn : (goodAhead key good p e).card ≤ n) : e ∉ q := by
  induction h with
  | @zero p =>
    intro he
    have hmem : e ∈ goodAhead key good p e := Finset.mem_filter.mpr ⟨he, hgood, le_refl _⟩
    have hpos := Finset.card_pos.mpr ⟨e, hmem⟩
    omega
  | @succ n p q sel hbatch hrest ih =>
    by_cases he : e ∈ p
    · by_cases hin : e ∈ sel
      · exact fun hq => (mem_serve.mp (hrest.subset hq)).2 ⟨hin, hgood⟩
      · refine ih (by rwa [stuckAhead_serve]) ?_
        have hlt := goodAhead_serve_lt hbatch he hin hstuck
        omega
    · exact fun hq => he (serve_subset p sel (hrest.subset hq))

/-! ## Starvation -/

/-- The order of the keys, with stuck items before good ones of the same key. -/
def stuckFirst (key : ι → κ) (good : ι → Bool) (i k : ι) : Prop :=
  key i < key k ∨ (key i = key k ∧ (good i = true → good k = true))

instance (key : ι → κ) (good : ι → Bool) : DecidableRel (stuckFirst key good) := fun i k =>
  inferInstanceAs (Decidable (key i < key k ∨ (key i = key k ∧ (good i = true → good k = true))))

omit [DecidableEq ι] in
theorem le_of_stuckFirst {i k : ι} (h : stuckFirst key good i k) : key i ≤ key k :=
  h.elim le_of_lt (fun heq => le_of_eq heq.1)

instance : Std.Total (stuckFirst key good) where
  total i k := by
    unfold stuckFirst
    rcases lt_trichotomy (key i) (key k) with hlt | heq | hgt
    · exact .inl (.inl hlt)
    · cases hg : good k with
      | true => exact .inl (.inr ⟨heq, fun _ => rfl⟩)
      | false => exact .inr (.inr ⟨heq.symm, fun h => by cases h⟩)
    · exact .inr (.inl hgt)

instance : IsTrans ι (stuckFirst key good) where
  trans i k m := by
    unfold stuckFirst
    rintro (h₁ | ⟨h₁, hg₁⟩) (h₂ | ⟨h₂, hg₂⟩)
    · exact .inl (h₁.trans h₂)
    · exact .inl (h₂ ▸ h₁)
    · exact .inl (h₁ ▸ h₂)
    · exact .inr ⟨h₁.trans h₂, fun hg => hg₂ (hg₁ hg)⟩

/-- The first `b` items of a sorted arrangement of the pending items form a batch. -/
theorem batch_take {r : ι → ι → Prop} {p : Finset ι} {l : List ι}
    (hr : ∀ {i k}, r i k → key i ≤ key k) (hnodup : l.Nodup) (hmem : ∀ i, i ∈ l ↔ i ∈ p)
    (hsorted : l.Pairwise r) : Batch key b p (l.take b) := by
  have hlen : l.length = p.card := by
    rw [← List.toFinset_card_of_nodup hnodup]
    congr 1
    ext i
    rw [List.mem_toFinset, hmem]
  refine ⟨hnodup.sublist (List.take_sublist b l), fun i hi => (hmem i).mp (List.mem_of_mem_take hi), ?_, ?_,
    (hsorted.sublist (List.take_sublist b l)).imp hr⟩
  · rw [List.length_take, hlen]
  · intro i hi k hk hout
    have hsplit : k ∈ l.take b ++ l.drop b := by rw [List.take_append_drop]; exact (hmem k).mpr hk
    have hdrop : k ∈ l.drop b := (List.mem_append.mp hsplit).resolve_left hout
    rw [← List.take_append_drop b l, List.pairwise_append] at hsorted
    exact hr (hsorted.2.2 i hi k hdrop)

/-- **Starvation.** With `b` stuck items ahead of a good one, a round can leave it out. -/
theorem exists_batch_not_mem {p : Finset ι} {e : ι} (hgood : good e = true)
    (hstuck : b ≤ (stuckAhead key good p e).card) : ∃ sel, Batch key b p sel ∧ e ∉ sel := by
  have hperm := List.perm_insertionSort (stuckFirst key good) p.toList
  have hsorted := List.pairwise_insertionSort (stuckFirst key good) p.toList
  generalize p.toList.insertionSort (stuckFirst key good) = l at hperm hsorted
  have hnodup : l.Nodup := hperm.nodup_iff.mpr p.nodup_toList
  refine ⟨l.take b, batch_take le_of_stuckFirst hnodup (fun i => ?_) hsorted, fun hin => ?_⟩
  · rw [hperm.mem_iff, Finset.mem_toList]
  · -- every stuck item ahead of `e` stands before it, so there are fewer than `b` of them
    obtain ⟨m, hm, hme⟩ := List.mem_iff_getElem.mp hin
    have hmb : m < b := by
      rw [List.length_take] at hm
      omega
    rw [List.getElem_take] at hme
    have hsub : stuckAhead key good p e ⊆ (l.take m).toFinset := by
      intro i hi
      obtain ⟨hip, hbad, hkey⟩ := Finset.mem_filter.mp hi
      have hil : i ∈ l := hperm.mem_iff.mpr (Finset.mem_toList.mpr hip)
      obtain ⟨k, hk, rfl⟩ := List.mem_iff_getElem.mp hil
      rw [List.mem_toFinset, List.mem_take_iff_getElem]
      refine ⟨k, ?_, rfl⟩
      rw [lt_min_iff]
      refine ⟨?_, hk⟩
      by_contra hge
      rcases Nat.lt_or_eq_of_le (Nat.le_of_not_lt hge) with hlt | rfl
      · have hord := List.pairwise_iff_getElem.mp hsorted m k (hlt.trans hk) hk hlt
        rw [hme] at hord
        rcases hord with hlt' | ⟨-, himp⟩
        · exact absurd hkey (not_le_of_gt hlt')
        · have := himp hgood
          simp [hbad] at this
      · rw [hme, hgood] at hbad
        cases hbad
    have hcard := Finset.card_le_card hsub
    have hle := List.toFinset_card_le (l.take m)
    rw [List.length_take] at hle
    omega

theorem exists_rounds_mem {e : ι} (hgood : good e = true) (n : Nat) {p : Finset ι} (he : e ∈ p)
    (hstuck : b ≤ (stuckAhead key good p e).card) : ∃ q, Rounds key b good n p q ∧ e ∈ q := by
  induction n generalizing p with
  | zero => exact ⟨p, .zero, he⟩
  | succ n ih =>
    obtain ⟨sel, hbatch, hout⟩ := exists_batch_not_mem hgood hstuck
    have he' : e ∈ serve good p sel := mem_serve.mpr ⟨he, fun h => hout h.1⟩
    obtain ⟨q, hq, heq⟩ := ih he' (by rwa [stuckAhead_serve])
    exact ⟨q, .succ hbatch hq, heq⟩

/-- **When a good item is served**: however ties are broken, within as many rounds as there are pending
items, if and only if fewer than `b` stuck items may be taken before it. -/
theorem served_iff {p : Finset ι} {e : ι} (he : e ∈ p) (hgood : good e = true) :
    (∀ q, Rounds key b good p.card p q → e ∉ q) ↔ (stuckAhead key good p e).card < b := by
  constructor
  · intro hall
    by_contra hge
    obtain ⟨q, hq, heq⟩ : ∃ q, Rounds key b good p.card p q ∧ e ∈ q :=
      exists_rounds_mem hgood p.card he (Nat.le_of_not_lt hge)
    exact hall q hq heq
  · intro hlt q hq
    exact not_mem_of_rounds hq hgood hlt (Finset.card_le_card (Finset.filter_subset _ _))

end Batches
