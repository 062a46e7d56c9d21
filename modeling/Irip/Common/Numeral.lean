import Mathlib.Data.Bool.AllAny
import Irip.Base.Words
import Irip.Common.PyText

/-!
# `Common.Numeral` — decimal numerals, and the floats they are read as

A numeral is a sign, digits, a point with digits behind it, and an exponent.
-/

namespace Irip

/-! ## Numerals -/

inductive Sign where
  | none
  | minus
  | plus
  deriving DecidableEq

namespace Sign

def chars : Sign → List Char
  | none => []
  | minus => ['-']
  | plus => ['+']

def negative (s : Sign) : Bool := s = minus

end Sign

/-- The character of a digit. -/
def digitChr (d : Fin 10) : Char := Nat.digitChar d

/-- The number of a list of digits. -/
def decimal (ds : List (Fin 10)) : Nat := ds.foldl (fun n d => 10 * n + d.val) 0

/-- An exponent: the letter is a capital or not, and there are digits. -/
structure Exponent where
  capital : Bool
  sign : Sign
  digits : List (Fin 10)
  ne_nil : digits ≠ []

namespace Exponent

def chars (e : Exponent) : List Char :=
  (if e.capital then 'E' else 'e') :: (e.sign.chars ++ e.digits.map digitChr)

def value (e : Exponent) : ℤ := if e.sign.negative then -(decimal e.digits : ℤ) else decimal e.digits

end Exponent

/-- A decimal numeral. There are digits before the point. -/
structure Numeral where
  sign : Sign
  whole : List (Fin 10)
  part : Option (List (Fin 10))
  exponent : Option Exponent
  ne_nil : whole ≠ []

namespace Numeral

/-- The point and the digits behind it. -/
def partChars (n : Numeral) : List Char :=
  match n.part with
  | none => []
  | some ds => '.' :: ds.map digitChr

def exponentChars (n : Numeral) : List Char := (n.exponent.map Exponent.chars).getD []

/-- The numeral without its sign. -/
def body (n : Numeral) : List Char := n.whole.map digitChr ++ (n.partChars ++ n.exponentChars)

def text (n : Numeral) : List Char := n.sign.chars ++ n.body

/-- The value without the sign. -/
def magnitude (n : Numeral) : ℚ :=
  decimal (n.whole ++ n.part.getD []) * 10 ^ ((n.exponent.map Exponent.value).getD 0 - ((n.part.getD []).length : ℤ))

def value (n : Numeral) : ℚ := if n.sign.negative then -n.magnitude else n.magnitude

end Numeral

/-! ### Digits -/

theorem isDigit_digitChr (d : Fin 10) : (digitChr d).isDigit = true := by
  unfold digitChr
  rw [Nat.isDigit_digitChar]
  exact decide_eq_true d.isLt

theorem all_isDigit (ds : List (Fin 10)) : ∀ c ∈ ds.map digitChr, c.isDigit = true := by
  intro c hc
  obtain ⟨d, _, rfl⟩ := List.mem_map.mp hc
  exact isDigit_digitChr d

theorem ofDigitChars_map (ds : List (Fin 10)) (init : Nat) :
    Nat.ofDigitChars 10 (ds.map digitChr) init = ds.foldl (fun n d => 10 * n + d.val) init := by
  induction ds generalizing init with
  | nil => simp
  | cons d ds ih =>
    rw [List.map_cons, List.foldl_cons, ← ih]
    exact Nat.ofDigitChars_cons_digitChar_of_lt_ten d.isLt

theorem digitChr_plain : ∀ d : Fin 10,
    digitChr d ≠ '_' ∧ digitChr d ≠ '-' ∧ digitChr d ≠ '+' ∧ (digitChr d).toLower ≠ 'i' ∧ (digitChr d).toLower ≠ 'n' := by
  decide

theorem span_digits {p : Char → Bool} (hp : ∀ d, p (digitChr d) = true) (ds : List (Fin 10)) {rest : List Char}
    (h : ∀ c ∈ rest.head?, p c = false) :
    (ds.map digitChr ++ rest).takeWhile p = ds.map digitChr ∧ (ds.map digitChr ++ rest).dropWhile p = rest := by
  have hdigits : ∀ c ∈ ds.map digitChr, p c = true := by
    intro c hc
    obtain ⟨d, _, rfl⟩ := List.mem_map.mp hc
    exact hp d
  have hrest : rest.takeWhile p = [] ∧ rest.dropWhile p = rest := by
    cases rest with
    | nil => exact ⟨rfl, rfl⟩
    | cons c rest =>
      have hc := h c rfl
      exact ⟨List.takeWhile_cons_of_neg (by simp [hc]), List.dropWhile_cons_of_neg (by simp [hc])⟩
  rw [List.takeWhile_append_of_pos hdigits, List.dropWhile_append_of_pos hdigits, hrest.1, hrest.2, List.append_nil]
  exact ⟨rfl, rfl⟩

/-! ### Reading -/

theorem splitSign_chars (s : Sign) {cs : List Char} (h : ∀ c ∈ cs.head?, c ≠ '-' ∧ c ≠ '+') :
    splitSign (s.chars ++ cs) = (s.negative, cs) := by
  cases s with
  | minus => rfl
  | plus => rfl
  | none =>
    cases cs with
    | nil => rfl
    | cons c cs =>
      obtain ⟨hminus, hplus⟩ := h c rfl
      show splitSign (c :: cs) = _
      unfold splitSign
      split
      · next heq => exact absurd (List.cons.inj heq).1 hminus
      · next heq => exact absurd (List.cons.inj heq).1 hplus
      · rfl

theorem head_digits {ds : List (Fin 10)} (h : ds ≠ []) (rest : List Char) :
    ∃ d, ∃ tail, ds.map digitChr ++ rest = digitChr d :: tail := by
  obtain ⟨d, ds, rfl⟩ := List.exists_cons_of_ne_nil h
  exact ⟨d, ds.map digitChr ++ rest, rfl⟩

theorem splitSign_digits (s : Sign) {ds : List (Fin 10)} (h : ds ≠ []) (rest : List Char) :
    splitSign (s.chars ++ (ds.map digitChr ++ rest)) = (s.negative, ds.map digitChr ++ rest) := by
  obtain ⟨d, tail, heq⟩ := head_digits h rest
  refine splitSign_chars s fun c hc => ?_
  rw [heq] at hc
  obtain rfl := Option.some.inj hc
  exact ⟨(digitChr_plain d).2.1, (digitChr_plain d).2.2.1⟩

theorem parseExponent_chars (e : Option Exponent) :
    parseExponent ((e.map Exponent.chars).getD []) = some ((e.map Exponent.value).getD 0) := by
  cases e with
  | none => rfl
  | some e =>
    have hletter : (if e.capital then 'E' else 'e').toLower = 'e' := by
      cases e.capital <;> rfl
    have hsplit := splitSign_digits e.sign e.ne_nil []
    rw [List.append_nil] at hsplit
    have hdigits : (e.digits.map digitChr).all Char.isDigit = true := List.all_eq_true.mpr (all_isDigit e.digits)
    have hne : e.digits.map digitChr ≠ [] := fun h => e.ne_nil (List.map_eq_nil_iff.mp h)
    show parseExponent e.chars = some e.value
    unfold Exponent.chars parseExponent
    dsimp only
    rw [hsplit]
    dsimp only
    rw [if_pos ⟨hletter, hne, hdigits⟩, ofDigitChars_map]
    rfl

theorem dropUnderscores_of_forall {cs : List Char} {prev : Char} (hprev : prev ≠ '_') (h : ∀ c ∈ cs, c ≠ '_') :
    dropUnderscores prev cs = some cs := by
  induction cs generalizing prev with
  | nil => exact if_neg hprev
  | cons c cs ih =>
    rw [List.forall_mem_cons] at h
    unfold dropUnderscores
    rw [if_neg h.1, if_neg (fun hc => hprev hc.1), ih h.1 h.2]
    rfl

theorem parseDecimal_point {cs whole tail part rest : List Char} (hwhole : cs.takeWhile Char.isDigit = whole)
    (htail : cs.dropWhile Char.isDigit = '.' :: tail) (hpart : tail.takeWhile Char.isDigit = part)
    (hrest : tail.dropWhile Char.isDigit = rest) (hne : whole ≠ []) : parseDecimal cs =
      (parseExponent rest).map (fun e => (Nat.ofDigitChars 10 (whole ++ part) 0 : ℚ) * 10 ^ (e - (part.length : ℤ))) := by
  unfold parseDecimal
  simp [hwhole, htail, hpart, hrest, hne]

theorem parseDecimal_no_point {cs whole rest : List Char} (hwhole : cs.takeWhile Char.isDigit = whole)
    (hrest : cs.dropWhile Char.isDigit = rest) (hpoint : rest.head? ≠ some '.') (hne : whole ≠ []) : parseDecimal cs =
      (parseExponent rest).map (fun e => (Nat.ofDigitChars 10 whole 0 : ℚ) * 10 ^ e) := by
  unfold parseDecimal
  simp [hwhole, hrest, hpoint, hne]

namespace Numeral

variable (n : Numeral)

theorem exponentChars_head {c : Char} (hc : c ∈ n.exponentChars.head?) : c = 'e' ∨ c = 'E' := by
  unfold exponentChars at hc
  cases hexponent : n.exponent with
  | none =>
    rw [hexponent] at hc
    cases hc
  | some e =>
    rw [hexponent] at hc
    obtain rfl := Option.some.inj hc
    cases e.capital
    · exact .inl rfl
    · exact .inr rfl

theorem partChars_head {c : Char} (hc : c ∈ (n.partChars ++ n.exponentChars).head?) : c = '.' ∨ c = 'e' ∨ c = 'E' := by
  unfold partChars at hc
  cases hpart : n.part with
  | some ds =>
    rw [hpart] at hc
    exact .inl (Option.some.inj hc).symm
  | none =>
    rw [hpart] at hc
    exact .inr (n.exponentChars_head hc)

theorem rest_not_digit {p : Char → Bool} (hp : ∀ c ∈ ['.', 'e', 'E'], p c = false) :
    (∀ c ∈ (n.partChars ++ n.exponentChars).head?, p c = false) ∧ ∀ c ∈ n.exponentChars.head?, p c = false := by
  constructor
  · intro c hc
    exact hp c (by simpa using n.partChars_head hc)
  · intro c hc
    exact hp c (List.mem_cons_of_mem _ (by simpa using n.exponentChars_head hc))

theorem parseDecimal_body : parseDecimal n.body = some n.magnitude := by
  have hexponent : parseExponent n.exponentChars = some ((n.exponent.map Exponent.value).getD 0) :=
    parseExponent_chars n.exponent
  have hrest := n.rest_not_digit (p := Char.isDigit) (List.all_iff_forall_prop.mp (by decide))
  have hwhole := span_digits isDigit_digitChr n.whole hrest.1
  have hne : n.whole.map digitChr ≠ [] := fun h => n.ne_nil (List.map_eq_nil_iff.mp h)
  cases hpart : n.part with
  | some ds =>
    have hspan := span_digits isDigit_digitChr ds hrest.2
    have hchars : n.partChars ++ n.exponentChars = '.' :: (ds.map digitChr ++ n.exponentChars) := by
      unfold partChars
      rw [hpart]
      rfl
    rw [hchars] at hwhole
    have hvalue : Nat.ofDigitChars 10 (n.whole.map digitChr ++ ds.map digitChr) 0 = decimal (n.whole ++ ds) := by
      rw [← List.map_append, ofDigitChars_map]
      rfl
    unfold body
    rw [hchars, parseDecimal_point hwhole.1 hwhole.2 hspan.1 hspan.2 hne, hexponent, hvalue]
    simp [magnitude, hpart]
  | none =>
    have hchars : n.partChars ++ n.exponentChars = n.exponentChars := by
      unfold partChars
      rw [hpart]
      rfl
    have hpoint : n.exponentChars.head? ≠ some '.' := by
      intro h
      rcases n.exponentChars_head h with heq | heq
      · exact absurd heq (by decide)
      · exact absurd heq (by decide)
    rw [hchars] at hwhole
    have hvalue : Nat.ofDigitChars 10 (n.whole.map digitChr) 0 = decimal n.whole := ofDigitChars_map n.whole 0
    unfold body
    rw [hchars, parseDecimal_no_point hwhole.1 hwhole.2 hpoint hne, hexponent, hvalue]
    simp [magnitude, hpart]

theorem mem_text {c : Char} (hc : c ∈ n.text) : (∃ d, c = digitChr d) ∨ c ∈ ['.', '+', '-', 'e', 'E'] := by
  have hdigits : ∀ ds : List (Fin 10), c ∈ ds.map digitChr → ∃ d, c = digitChr d := by
    intro ds hc
    obtain ⟨d, _, rfl⟩ := List.mem_map.mp hc
    exact ⟨d, rfl⟩
  have hsign : ∀ s : Sign, c ∈ s.chars → c ∈ ['.', '+', '-', 'e', 'E'] := by
    intro s hc
    cases s <;> simp_all [Sign.chars]
  unfold text body at hc
  rw [List.mem_append, List.mem_append, List.mem_append] at hc
  rcases hc with hc | hc | hc | hc
  · exact .inr (hsign _ hc)
  · exact .inl (hdigits _ hc)
  · unfold partChars at hc
    split at hc
    · cases hc
    · rcases List.mem_cons.mp hc with rfl | hc
      · exact .inr (by decide)
      · exact .inl (hdigits _ hc)
  · unfold exponentChars at hc
    cases hexponent : n.exponent with
    | none =>
      rw [hexponent] at hc
      cases hc
    | some e =>
      rw [hexponent] at hc
      rcases List.mem_cons.mp hc with rfl | hc
      · cases e.capital <;> exact .inr (by decide)
      · rcases List.mem_append.mp hc with hc | hc
        · exact .inr (hsign _ hc)
        · exact .inl (hdigits _ hc)

theorem forall_text {P : Char → Prop} (hdigit : ∀ d, P (digitChr d)) (hother : ∀ c ∈ ['.', '+', '-', 'e', 'E'], P c) :
    ∀ c ∈ n.text, P c := by
  intro c hc
  rcases n.mem_text hc with ⟨d, rfl⟩ | hc
  · exact hdigit d
  · exact hother c hc

theorem text_plain : ∀ c ∈ n.text, c ≠ '_' := 
  n.forall_text (fun d => (digitChr_plain d).1) (List.all_iff_forall_prop.mp (by decide))

theorem text_not_space : ∀ c ∈ n.text, isSpace c = false := 
  n.forall_text (by decide) (List.all_iff_forall_prop.mp (by decide))

theorem text_ne_nil : n.text ≠ [] := by
  obtain ⟨d, tail, hbody⟩ := head_digits n.ne_nil (n.partChars ++ n.exponentChars)
  unfold text body
  rw [hbody]
  exact List.append_ne_nil_of_right_ne_nil _ (List.cons_ne_nil _ _)

theorem asciiDecimals_text : asciiDecimals n.text = n.text := by
  have hsame : ∀ c ∈ n.text, asciiDecimals [c] = [c] :=
    n.forall_text (by decide +kernel) (List.all_iff_forall_prop.mp (by decide +kernel))
  unfold asciiDecimals
  exact (List.map_congr_left (fun c hc => (List.cons.inj (hsame c hc)).1)).trans (List.map_id _)

/-! ## Result -/

/-- **A numeral** is read as the float nearest to its value. -/
theorem parseFloat_text : parseFloat n.text = some (binary64.ofRat n.value) := by
  have hsplit := splitSign_digits n.sign n.ne_nil (n.partChars ++ n.exponentChars)
  obtain ⟨d, tail, hbody⟩ := head_digits n.ne_nil (n.partChars ++ n.exponentChars)
  have hname : ∀ name : String, (name.toList.head? = some 'i' ∨ name.toList.head? = some 'n') →
      String.ofList (n.body.map Char.toLower) ≠ name := by
    intro name hhead heq
    have hlist := congrArg (fun s => s.toList.head?) heq
    unfold body at hlist
    rw [hbody] at hlist
    rw [String.toList_ofList, List.map_cons, List.head?_cons] at hlist
    rcases hhead with h | h
    · exact (digitChr_plain d).2.2.2.1 (Option.some.inj (hlist.trans h))
    · exact (digitChr_plain d).2.2.2.2 (Option.some.inj (hlist.trans h))
  unfold parseFloat
  rw [dropUnderscores_of_forall (by decide) n.text_plain]
  unfold text body
  rw [Option.bind_some, hsplit]
  dsimp only
  have hinf := hname "inf" (.inl (by decide))
  have hinfinity := hname "infinity" (.inl (by decide))
  have hnan := hname "nan" (.inr (by decide))
  have hdecimal := n.parseDecimal_body
  unfold body at hinf hinfinity hnan hdecimal
  rw [if_neg (fun h => h.elim hinf hinfinity), if_neg hnan, hdecimal]
  rfl

theorem pyFloat?_text : pyFloat? (String.ofList n.text) = some (binary64.ofRat n.value) := by
  have hstrip : strip (String.ofList n.text) = String.ofList n.text := by
    unfold strip
    rw [String.toList_ofList]
    exact congrArg String.ofList (Words.trim_eq_self
      (fun c hc => n.text_not_space c (List.mem_of_mem_head? hc)) fun c hc => n.text_not_space c (List.mem_of_mem_getLast? hc))
  unfold pyFloat?
  rw [hstrip, String.toList_ofList, n.asciiDecimals_text, n.parseFloat_text]

end Numeral

end Irip
