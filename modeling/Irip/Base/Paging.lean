import Mathlib.Order.Lattice
import Irip.Base.StableSort

/-!
# `Base.Paging` — a listing that is fetched page by page

The rows of a table in the order of a key, some at a time: a page begins behind the key of the last row of the page
before. Rows may have the same key, and the database may arrange those differently for every page.
-/

namespace Paging

variable {α β γ κ ε : Type}

/-! ## Following -/

/-- Page after page, until there is no next cursor. The pages are counted from `i`. -/
def collect (page : Nat → Option κ → List α × Option κ) : Nat → Nat → Option κ → Option (List α)
  | 0, _, _ => none
  | fuel + 1, i, after =>
    match page i after with
    | (out, none) => some out
    | (out, some k) => (collect page fuel (i + 1) (some k)).map (out ++ ·)

/-- Page after page, with cursors that may be refused. -/
def follow (page : Nat → Option γ → Except ε (List β × Option γ)) : Nat → Nat → Option γ → Option (Except ε (List β))
  | 0, _, _ => none
  | fuel + 1, i, cursor =>
    match page i cursor with
    | .error e => some (.error e)
    | .ok (items, none) => some (.ok items)
    | .ok (items, some next) => (follow page fuel (i + 1) (some next)).map (Except.map (items ++ ·))

theorem follow_encode {page : Nat → Option κ → List α × Option κ} {encode : κ → γ} {item : α → β}
    {page' : Nat → Option γ → Except ε (List β × Option γ)}
    (h : ∀ i after, page' i (after.map encode) = .ok ((page i after).1.map item, (page i after).2.map encode))
    (fuel i : Nat) (after : Option κ) :
    follow page' fuel i (after.map encode) = (collect page fuel i after).map (fun out => .ok (out.map item)) := by
  induction fuel generalizing i after with
  | zero => rfl
  | succ fuel ih =>
    rw [follow, collect, h]
    rcases hpage : page i after with ⟨out, _ | k⟩
    · rfl
    · have hrest := ih (i + 1) (some k)
      rw [Option.map_some] at hrest
      simp only [Option.map_some, hrest, Option.map_map]
      congr 1
      funext rest
      simp [Except.map]

theorem getLast?_take {n : Nat} (hn : 1 ≤ n) {found : List α} (h : n < found.length) :
    (found.take n).getLast? = found[n - 1]? := by
  rw [List.getLast?_eq_getElem?, List.length_take, Nat.min_eq_left h.le, List.getElem?_take_of_lt (by omega)]

/-! ## Gaps -/

/-- The last key of a full page is not the next key. -/
def Gaps (n : Nat) (keys : List κ) : Prop :=
  ∀ i k k', keys[(i + 1) * n - 1]? = some k → keys[(i + 1) * n]? = some k' → k ≠ k'

theorem gaps_drop {n : Nat} (hn : 1 ≤ n) {keys : List κ} :
    Gaps n keys ↔ (∀ k k', keys[n - 1]? = some k → keys[n]? = some k' → k ≠ k') ∧ Gaps n (keys.drop n) := by
  have hshift : ∀ i, n + ((i + 1) * n - 1) = (i + 1 + 1) * n - 1 := by
    intro i
    have hpos : 1 ≤ (i + 1) * n := Nat.le_trans hn (Nat.le_mul_of_pos_left n (Nat.succ_pos i))
    rw [Nat.succ_mul (i + 1)]
    omega
  constructor
  · intro h
    refine ⟨?_, ?_⟩
    · intro k k' hk hk'
      refine h 0 k k' ?_ ?_
      · rwa [Nat.zero_add, Nat.one_mul]
      · rwa [Nat.zero_add, Nat.one_mul]
    · intro i k k' hk hk'
      rw [List.getElem?_drop] at hk hk'
      rw [hshift] at hk
      rw [Nat.add_comm, ← Nat.succ_mul] at hk'
      exact h (i + 1) k k' hk hk'
  · rintro ⟨hfirst, hrest⟩ i k k' hk hk'
    cases i with
    | zero =>
      rw [Nat.zero_add, Nat.one_mul] at hk hk'
      exact hfirst k k' hk hk'
    | succ i =>
      refine hrest i k k' ?_ ?_
      · rwa [List.getElem?_drop, hshift]
      · rwa [List.getElem?_drop, Nat.add_comm, ← Nat.succ_mul]

theorem gaps_of_le {n : Nat} {keys : List κ} (h : keys.length ≤ n) : Gaps n keys := by
  intro i k k' _ hk'
  obtain ⟨hlt, -⟩ := List.getElem?_eq_some_iff.mp hk'
  have hpage : n ≤ (i + 1) * n := Nat.le_mul_of_pos_left n (Nat.succ_pos i)
  omega

variable [LinearOrder κ] {key : α → κ}

/-! ## Pages -/

/-- The rows in the order of their keys. -/
structure Sorts (key : α → κ) (rows out : List α) : Prop where
  perm : out.Perm rows
  sorted : out.Pairwise (fun a b => key a ≤ key b)

/-- How a query arranges its rows by a key. -/
structure OrderBy (key : α → κ) where
  sort : List α → List α
  sorts : ∀ rows, Sorts key rows (sort rows)

/-- Rows with the same key keep their order. -/
def OrderBy.stable (key : α → κ) : OrderBy key where
  sort := StableSort.sortBy key
  sorts rows := ⟨StableSort.perm_sortBy rows, StableSort.pairwise_sortBy rows⟩

/-- Behind the cursor, if there is one. -/
def beyond (key : α → κ) (after : Option κ) (row : α) : Bool :=
  match after with
  | none => true
  | some k => k < key row

/-- One row more than the page has is fetched. If it is there, the key of the last row of the page is the next cursor. -/
def page (order : OrderBy key) (rows : List α) (n : Nat) (after : Option κ) : List α × Option κ :=
  let found := (order.sort (rows.filter (beyond key after))).take (n + 1)
  (found.take n, if n < found.length then (found.take n).getLast?.map key else none)

/-! ## Order -/

/-- The keys of the rows, in order. -/
def sortedKeys (key : α → κ) (rows : List α) : List κ := (rows.map key).insertionSort (· ≤ ·)

/-- Sorted rows have sorted keys. -/
theorem Sorts.keys {rows out : List α} (h : Sorts key rows out) : out.map key = sortedKeys key rows := by
  have hperm : (out.map key).Perm (sortedKeys key rows) :=
    (h.perm.map key).trans (List.perm_insertionSort _ _).symm
  exact hperm.eq_of_pairwise (fun _ _ _ _ => le_antisymm) (List.pairwise_map.mpr h.sorted)
    (List.pairwise_insertionSort _ _)

theorem gaps_of_nodup {n : Nat} (hn : 1 ≤ n) {rows : List α} (h : (rows.map key).Nodup) :
    Gaps n (sortedKeys key rows) := by
  have hnodup : (sortedKeys key rows).Nodup := (List.perm_insertionSort _ _).nodup_iff.mpr h
  intro i k k' hk hk' heq
  obtain ⟨hlt, rfl⟩ := List.getElem?_eq_some_iff.mp hk
  obtain ⟨hlt', rfl⟩ := List.getElem?_eq_some_iff.mp hk'
  have hindex := (List.Nodup.getElem_inj_iff hnodup).mp heq
  have hpos : n ≤ (i + 1) * n := Nat.le_mul_of_pos_left n (Nat.succ_pos i)
  omega

/-! ## One page -/

section Page

variable {order : OrderBy key} {rows : List α} {n : Nat} {after : Option κ}

/-- The rows behind a cursor. -/
def behind (key : α → κ) (rows : List α) (after : Option κ) : List α := rows.filter (beyond key after)

theorem page_eq (hn : 1 ≤ n) {found : List α} (h : order.sort (behind key rows after) = found) :
    (found.length ≤ n ∧ page order rows n after = (found, none)) ∨
    (∃ last, n < found.length ∧ found[n - 1]? = some last ∧
      page order rows n after = (found.take n, some (key last))) := by
  have hpage : page order rows n after =
      (found.take n, if n < found.length then (found.take n).getLast?.map key else none) := by
    unfold page
    rw [show order.sort (rows.filter (beyond key after)) = found from h]
    have hmin : n < min (n + 1) found.length ↔ n < found.length := by omega
    simp only [List.take_take, Nat.min_eq_left (Nat.le_succ n), List.length_take, hmin]
  by_cases hlong : n < found.length
  · have hlast : (found.take n).getLast? = some found[n - 1] := by
      rw [getLast?_take hn hlong, List.getElem?_eq_getElem (by omega)]
    right
    refine ⟨found[n - 1], hlong, List.getElem?_eq_getElem (by omega), ?_⟩
    rw [hpage, if_pos hlong, hlast]
    rfl
  · left
    refine ⟨by omega, ?_⟩
    rw [hpage, if_neg hlong, List.take_of_length_le (by omega)]

theorem behind_next {last : α} (h : last ∈ behind key rows after) :
    behind key rows (some (key last)) = (behind key rows after).filter (fun r => key last < key r) := by
  unfold behind
  rw [List.filter_filter]
  apply List.filter_congr
  intro r _
  have hlast := (List.mem_filter.mp h).2
  cases after with
  | none => simp [beyond]
  | some k =>
    have hk : k < key last := of_decide_eq_true hlast
    by_cases hr : key last < key r
    · simp [beyond, hr, hk.trans hr]
    · simp [beyond, hr]

/-- **What is behind a page is the rest**, if there is a gap, and less than that otherwise. -/
theorem rest_of_page {found : List α} {last : α} (hn : 1 ≤ n) (hfound : Sorts key (behind key rows after) found)
    (hlong : n < found.length) (hlast : found[n - 1]? = some last) :
    (key last ≠ key found[n] → (behind key rows (some (key last))).Perm (found.drop n)) ∧
    (key last = key found[n] → (behind key rows (some (key last))).length < (found.drop n).length) := by
  obtain ⟨hlt, heq⟩ := List.getElem?_eq_some_iff.mp hlast
  have hmem : last ∈ behind key rows after := hfound.perm.mem_iff.mp (heq ▸ List.getElem_mem _)
  have hordered : ∀ i j (hi : i < found.length) (hj : j < found.length), i ≤ j → key found[i] ≤ key found[j] := by
    intro i j hi hj hij
    rcases Nat.lt_or_eq_of_le hij with hij | rfl
    · exact List.pairwise_iff_getElem.mp hfound.sorted i j hi hj hij
    · exact le_refl _
  -- the rows of the page have no greater key than its last one
  have hpage : (found.take n).filter (fun r => key last < key r) = [] := by
    rw [List.filter_eq_nil_iff]
    intro r hr
    obtain ⟨i, hi, rfl⟩ := List.getElem_of_mem hr
    rw [List.length_take] at hi
    rw [List.getElem_take]
    have hle := hordered i (n - 1) (by omega) (by omega) (by omega)
    rw [heq] at hle
    simpa using hle
  have hperm : (behind key rows (some (key last))).Perm ((found.drop n).filter (fun r => key last < key r)) := by
    rw [behind_next hmem]
    have hfilter := hfound.perm.symm.filter (fun r => key last < key r)
    rwa [← List.take_append_drop n found, List.filter_append, hpage, List.nil_append] at hfilter
  constructor
  · intro hgap
    refine hperm.trans (List.Perm.of_eq ?_)
    rw [List.filter_eq_self]
    intro r hr
    obtain ⟨i, hi, rfl⟩ := List.getElem_of_mem hr
    rw [List.length_drop] at hi
    rw [List.getElem_drop]
    have hboundary := lt_of_le_of_ne (heq ▸ hordered (n - 1) n (by omega) hlong (by omega)) hgap
    exact decide_eq_true (lt_of_lt_of_le hboundary (hordered n (n + i) hlong (by omega) (by omega)))
  · intro htie
    rw [hperm.length_eq]
    refine List.length_filter_lt_length_iff_exists.mpr ⟨found[n], ?_, ?_⟩
    · exact List.mem_drop_iff_getElem.mpr ⟨0, by omega, by simp⟩
    · simp [htie]

end Page

/-! ## All pages -/

section Collect

variable {rows : List α} {n : Nat}

/-- **From a cursor on**, all pages together are the rows behind it in order if there are gaps, and too few otherwise. -/
theorem collect_spec (orders : Nat → OrderBy key) (rows : List α) (hn : 1 ≤ n) (fuel i : Nat) (after : Option κ) (hfuel : (behind key rows after).length < fuel) :
    ∃ out, collect (fun i => page (orders i) rows n) fuel i after = some out ∧
      out.length ≤ (behind key rows after).length ∧
      (Gaps n (sortedKeys key (behind key rows after)) → Sorts key (behind key rows after) out) ∧
      (¬ Gaps n (sortedKeys key (behind key rows after)) → out.length < (behind key rows after).length) := by
  induction fuel generalizing i after with
  | zero => exact absurd hfuel (Nat.not_lt_zero _)
  | succ fuel ih =>
    have hfound := (orders i).sorts (behind key rows after)
    generalize hsort : (orders i).sort (behind key rows after) = found at hfound
    have hlength := hfound.perm.length_eq
    have hkeys := hfound.keys
    rcases page_eq hn hsort with ⟨hshort, hpage⟩ | ⟨last, hlong, hlast, hpage⟩
    · refine ⟨found, ?_, hlength.le, fun _ => hfound, fun hno => ?_⟩
      · simp only [collect, hpage]
      · refine absurd (gaps_of_le ?_) hno
        rw [← hkeys, List.length_map]
        exact hshort
    · obtain ⟨hgap, htie⟩ := rest_of_page hn hfound hlong hlast
      have hlastkey : (found.map key)[n - 1]? = some (key last) := by rw [List.getElem?_map, hlast, Option.map_some]
      have hnextkey : (found.map key)[n]? = some (key found[n]) := by
        rw [List.getElem?_map, List.getElem?_eq_getElem hlong, Option.map_some]
      have hdrop : (found.drop n).length = found.length - n := List.length_drop
      have htake : (found.take n).length = n := by rw [List.length_take, Nat.min_eq_left hlong.le]
      have hless : (behind key rows (some (key last))).length ≤ (found.drop n).length := by
        by_cases heq : key last = key found[n]
        · exact (htie heq).le
        · exact (hgap heq).length_eq.le
      have hrestkeys : key last ≠ key found[n] →
          (found.map key).drop n = sortedKeys key (behind key rows (some (key last))) := by
        intro hne
        rw [← List.map_drop]
        exact (Sorts.mk (hgap hne).symm (hfound.sorted.sublist (List.drop_sublist n found))).keys
      obtain ⟨out, hout, hle, hsorts, hfew⟩ := ih (i + 1) (some (key last)) (by omega)
      refine ⟨found.take n ++ out, ?_, ?_, ?_, ?_⟩
      · simp only [collect, hpage, hout, Option.map_some]
      · rw [List.length_append]
        omega
      · intro hgaps
        rw [← hkeys, gaps_drop hn] at hgaps
        have hne := hgaps.1 _ _ hlastkey hnextkey
        have hrest := hgap hne
        have htail := hsorts (hrestkeys hne ▸ hgaps.2)
        constructor
        · refine (htail.perm.trans hrest).append_left _ |>.trans ?_
          rw [List.take_append_drop]
          exact hfound.perm
        · rw [List.pairwise_append]
          refine ⟨hfound.sorted.sublist (List.take_sublist n found), htail.sorted, ?_⟩
          intro a ha b hb
          have hdisjoint := hfound.sorted
          rw [← List.take_append_drop n found, List.pairwise_append] at hdisjoint
          exact hdisjoint.2.2 a ha b (hrest.mem_iff.mp (htail.perm.mem_iff.mp hb))
      · intro hno
        rw [List.length_append]
        by_cases heq : key last = key found[n]
        · have := htie heq
          omega
        · rw [← hkeys, gaps_drop hn] at hno
          have hfew' := hfew fun hgaps => hno ⟨?_, hrestkeys heq ▸ hgaps⟩
          · have := (hgap heq).length_eq
            omega
          · intro k k' hk hk'
            rw [hlastkey] at hk
            rw [hnextkey] at hk'
            obtain rfl := Option.some.inj hk
            obtain rfl := Option.some.inj hk'
            exact heq

/-- **All pages together** are the rows in order if there are gaps at the page boundaries, and too few otherwise. -/
theorem collect_all (orders : Nat → OrderBy key) (hn : 1 ≤ n) {fuel : Nat} (hfuel : rows.length < fuel) :
    ∃ out, collect (fun i => page (orders i) rows n) fuel 0 none = some out ∧
      (Gaps n (sortedKeys key rows) → Sorts key rows out) ∧
      (¬ Gaps n (sortedKeys key rows) → out.length < rows.length) := by
  have hall : behind key rows none = rows := List.filter_eq_self.mpr (fun _ _ => rfl)
  obtain ⟨out, hout, -, hrest⟩ := collect_spec orders rows hn fuel 0 none (by rwa [hall])
  rw [hall] at hrest
  exact ⟨out, hout, hrest⟩

end Collect

end Paging
