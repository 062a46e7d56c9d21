import Mathlib.Data.List.DropRight

/-!
# `Base.Words` — the words of a text

A text is a list, of which some elements are blanks. Its words are the runs between the blanks.
-/

namespace Words

variable {α : Type} (blank : α → Bool)

/-! ## Ends -/

/-- The text without the blanks at its ends. -/
def trim (cs : List α) : List α := (cs.dropWhile blank).rdropWhile blank

variable {blank}

@[simp] theorem trim_nil : trim blank [] = [] := rfl

theorem trim_cons_of_blank {c : α} {cs : List α} (h : blank c = true) : trim blank (c :: cs) = trim blank cs := by
  unfold trim
  rw [List.dropWhile_cons_of_pos h]

theorem rdropWhile_append_cons {c : α} (h : blank c = false) (cs ds : List α) :
    (cs ++ c :: ds).rdropWhile blank = cs ++ c :: ds.rdropWhile blank := by
  induction ds using List.reverseRecOn with
  | nil =>
    rw [List.rdropWhile_nil]
    exact List.rdropWhile_concat_neg blank cs c (by simp [h])
  | append_singleton ds d ih =>
    rw [← List.cons_append, ← List.append_assoc]
    by_cases hd : blank d = true
    · rw [List.rdropWhile_concat_pos _ _ _ hd, List.rdropWhile_concat_pos _ _ _ hd, ih]
    · rw [List.rdropWhile_concat_neg _ _ _ hd, List.rdropWhile_concat_neg _ _ _ hd]
      simp

theorem trim_cons {c : α} (h : blank c = false) (cs : List α) : trim blank (c :: cs) = c :: cs.rdropWhile blank := by
  unfold trim
  rw [List.dropWhile_cons_of_neg (by simp [h])]
  exact rdropWhile_append_cons h [] cs

theorem length_trim_le (blank : α → Bool) (cs : List α) : (trim blank cs).length ≤ cs.length :=
  ((List.rdropWhile_prefix _ _).length_le).trans (List.dropWhile_suffix _).length_le

theorem trim_append_cons {c : α} (h : blank c = false) {d : α} (hd : blank d = false) (cs ds : List α) :
    trim blank (d :: cs ++ c :: ds) = d :: cs ++ c :: ds.rdropWhile blank := by
  rw [List.cons_append, trim_cons hd, rdropWhile_append_cons h, List.cons_append]

theorem trim_rdropWhile (cs : List α) : trim blank (cs.rdropWhile blank) = trim blank cs := by
  induction cs with
  | nil => rfl
  | cons c cs ih =>
    by_cases hc : blank c = true
    · rw [trim_cons_of_blank hc]
      by_cases hall : ∀ d ∈ c :: cs, blank d = true
      · rw [List.rdropWhile_eq_nil_iff.mpr hall, trim_nil, ← ih,
          List.rdropWhile_eq_nil_iff.mpr (fun d hd => hall d (List.mem_cons_of_mem _ hd)), trim_nil]
      · obtain ⟨d, hd, hblank⟩ := not_forall₂.mp hall
        have hmem : d ∈ cs := (List.mem_cons.mp hd).resolve_left (fun h => hblank (h ▸ hc))
        obtain ⟨as, bs, rfl⟩ := List.append_of_mem hmem
        have hfalse : blank d = false := by simpa using hblank
        rw [rdropWhile_append_cons hfalse] at ih
        rw [← List.cons_append, rdropWhile_append_cons hfalse, List.cons_append, trim_cons_of_blank hc, ih]
    · have hfalse : blank c = false := by simpa using hc
      have hcons := rdropWhile_append_cons hfalse [] cs
      rw [List.nil_append, List.nil_append] at hcons
      rw [hcons, trim_cons hfalse, trim_cons hfalse, List.rdropWhile_idempotent]

theorem trim_eq_self {cs : List α} (hhead : ∀ c ∈ cs.head?, blank c = false)
    (hlast : ∀ c ∈ cs.getLast?, blank c = false) : trim blank cs = cs := by
  cases cs with
  | nil => rfl
  | cons c cs =>
    rw [trim_cons (hhead c rfl)]
    have hcons := rdropWhile_append_cons (hhead c rfl) [] cs
    rw [List.nil_append, List.nil_append] at hcons
    rw [← hcons, List.rdropWhile_eq_self_iff]
    intro hne
    rw [hlast _ (List.getLast?_eq_getLast_of_ne_nil hne)]
    decide

/-! ## Words -/

variable (blank) in
/-- The runs between the blanks. -/
def words (cs : List α) : List (List α) := (cs.splitOnP blank).filter (fun w => !w.isEmpty)

variable (blank) in
/-- A text of one word. -/
structure Word (w : List α) : Prop where
  ne_nil : w ≠ []
  plain : ∀ c ∈ w, blank c = false

theorem words_cons_of_blank {c : α} {cs : List α} (h : blank c = true) : words blank (c :: cs) = words blank cs := by
  unfold words
  rw [List.splitOnP_cons_eq_if_modifyHead, if_pos h]
  rfl

theorem words_of_word {w : List α} (h : Word blank w) : words blank w = [w] := by
  unfold words
  rw [List.splitOnP_eq_singleton h.plain]
  simp [h.ne_nil]

theorem words_append_cons {w : List α} (h : Word blank w) {c : α} (hc : blank c = true) (cs : List α) :
    words blank (w ++ c :: cs) = w :: words blank cs := by
  unfold words
  rw [List.splitOnP_append_cons_of_forall_mem h.plain c hc]
  simp [h.ne_nil]

theorem words_gap {gap : List α} (h : ∀ c ∈ gap, blank c = true) (cs : List α) :
    words blank (gap ++ cs) = words blank cs := by
  induction gap with
  | nil => rfl
  | cons c gap ih =>
    rw [List.forall_mem_cons] at h
    rw [List.cons_append, words_cons_of_blank h.1, ih h.2]

theorem exists_mem_words {cs : List α} {c : α} (hc : c ∈ cs) (hplain : blank c = false) :
    ∃ w ∈ words blank cs, c ∈ w := by
  have hrun : ∃ w ∈ cs.splitOnP blank, c ∈ w := by
    induction cs with
    | nil => cases hc
    | cons d cs ih =>
      rw [List.splitOnP_cons_eq_if_modifyHead]
      by_cases hd : blank d = true
      · rw [if_pos hd]
        have hmem : c ∈ cs := (List.mem_cons.mp hc).resolve_left (fun h => by simp [h, hd] at hplain)
        obtain ⟨w, hw, hcw⟩ := ih hmem
        exact ⟨w, List.mem_cons_of_mem _ hw, hcw⟩
      · rw [if_neg hd]
        obtain ⟨w, ws, hws⟩ := List.exists_cons_of_ne_nil (List.splitOnP_ne_nil blank cs)
        rw [hws, List.modifyHead_cons]
        rcases List.mem_cons.mp hc with rfl | hmem
        · exact ⟨_, List.mem_cons_self, List.mem_cons_self⟩
        · obtain ⟨v, hv, hcv⟩ := ih hmem
          rw [hws] at hv
          rcases List.mem_cons.mp hv with rfl | hv
          · exact ⟨_, List.mem_cons_self, List.mem_cons_of_mem _ hcv⟩
          · exact ⟨v, List.mem_cons_of_mem _ hv, hcv⟩
  obtain ⟨w, hw, hcw⟩ := hrun
  exact ⟨w, List.mem_filter.mpr ⟨hw, by simp [List.ne_nil_of_mem hcw]⟩, hcw⟩

/-! ## Result -/

/-- **Words joined by blanks** are the words of the text. -/
theorem words_intercalate {gap : List α} (hgap : gap ≠ []) (hblank : ∀ c ∈ gap, blank c = true) {ws : List (List α)}
    (h : ∀ w ∈ ws, Word blank w) : words blank (gap.intercalate ws) = ws := by
  induction ws with
  | nil => rfl
  | cons w ws ih =>
    rw [List.forall_mem_cons] at h
    cases ws with
    | nil =>
      rw [List.intercalate_singleton]
      exact words_of_word h.1
    | cons w' ws =>
      obtain ⟨c, gap, rfl⟩ := List.exists_cons_of_ne_nil hgap
      rw [List.forall_mem_cons] at hblank
      rw [List.intercalate_cons_cons, List.append_assoc, List.cons_append, words_append_cons h.1 hblank.1,
        words_gap hblank.2, ih h.2]

theorem mem_intercalate {gap : List α} {ws : List (List α)} {c : α} (hc : c ∈ gap.intercalate ws) :
    c ∈ gap ∨ ∃ w ∈ ws, c ∈ w := by
  induction ws with
  | nil => cases hc
  | cons w ws ih =>
    cases ws with
    | nil =>
      rw [List.intercalate_singleton] at hc
      exact .inr ⟨w, List.mem_cons_self, hc⟩
    | cons w' ws =>
      rw [List.intercalate_cons_cons, List.mem_append, List.mem_append] at hc
      rcases hc with (hc | hc) | hc
      · exact .inr ⟨w, List.mem_cons_self, hc⟩
      · exact .inl hc
      · rcases ih hc with hc | ⟨v, hv, hcv⟩
        · exact .inl hc
        · exact .inr ⟨v, List.mem_cons_of_mem _ hv, hcv⟩

theorem trim_intercalate (gap : List α) {ws : List (List α)} (h : ∀ w ∈ ws, Word blank w) :
    trim blank (gap.intercalate ws) = gap.intercalate ws := by
  have hends : ws ≠ [] → (∃ c rest, gap.intercalate ws = c :: rest ∧ blank c = false) ∧
      ∃ c rest, gap.intercalate ws = rest ++ [c] ∧ blank c = false := by
    induction ws with
    | nil => exact fun hne => absurd rfl hne
    | cons w ws ih =>
      intro _
      rw [List.forall_mem_cons] at h
      obtain ⟨c, tail, hhead⟩ := List.exists_cons_of_ne_nil h.1.ne_nil
      obtain ⟨front, d, hlast⟩ := (List.eq_nil_or_concat w).resolve_left h.1.ne_nil
      have hc : blank c = false := h.1.plain c (hhead ▸ List.mem_cons_self)
      have hd : blank d = false := h.1.plain d (hlast ▸ by simp)
      cases ws with
      | nil =>
        rw [List.intercalate_singleton]
        exact ⟨⟨c, tail, hhead, hc⟩, d, front, by simpa using hlast, hd⟩
      | cons w' ws =>
        obtain ⟨_, e, rest, hrest, he⟩ := ih h.2 (List.cons_ne_nil _ _)
        rw [List.intercalate_cons_cons]
        refine ⟨⟨c, tail ++ gap ++ gap.intercalate (w' :: ws), ?_, hc⟩, e, w ++ gap ++ rest, ?_, he⟩
        · rw [hhead]
          rfl
        · rw [hrest, List.append_assoc (w ++ gap)]
  by_cases hne : ws = []
  · rw [hne]
    rfl
  · obtain ⟨⟨c, rest, hhead, hc⟩, d, front, hlast, hd⟩ := hends hne
    refine trim_eq_self (fun x hx => ?_) fun x hx => ?_
    · rw [hhead] at hx
      obtain rfl := Option.some.inj hx
      exact hc
    · rw [hlast, List.getLast?_append] at hx
      obtain rfl := Option.some.inj hx
      exact hd

end Words
