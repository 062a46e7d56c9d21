import Mathlib.Data.List.Basic
import Mathlib.Tactic.IntervalCases

/-!
# `Base.DateTime` — instants as ISO 8601 texts

Instants are microseconds since 1970-01-01, written in UTC in the proleptic Gregorian calendar.
-/

namespace DateTime

/-! ## Civil dates -/

/-- The year, month and day. The calendar repeats after 146097 days, which begin on a 1st of March. -/
def civil (days : Int) : Int × Nat × Nat :=
  let z := days + 719468
  let era := z / 146097
  let doe := (z % 146097).toNat
  let yoe := (doe - doe / 1460 + doe / 36524 - doe / 146096) / 365
  let doy := doe - (365 * yoe + yoe / 4 - yoe / 100)
  let mp := (5 * doy + 2) / 153
  let day := doy - (153 * mp + 2) / 5 + 1
  let month := if mp < 10 then mp + 3 else mp - 9
  let year : Int := yoe + era * 400
  (if month ≤ 2 then year + 1 else year, month, day)

/-- The number of a civil date. -/
def dayNumber (year : Int) (month day : Nat) : Int :=
  let y := if month ≤ 2 then year - 1 else year
  let era := y / 400
  let yoe := (y % 400).toNat
  let mp := if month ≤ 2 then month + 9 else month - 3
  let doy := (153 * mp + 2) / 5 + day - 1
  era * 146097 + (365 * yoe + yoe / 4 - yoe / 100 + doy : Nat) - 719468

theorem day_in_year_lt {doe : Nat} (h : doe < 146097) :
    (doe - doe / 1460 + doe / 36524 - doe / 146096) / 365 < 400 := by omega

theorem day_in_year {doe yoe : Nat} (h : doe < 146097)
    (hy : yoe = (doe - doe / 1460 + doe / 36524 - doe / 146096) / 365) :
    365 * yoe + yoe / 4 - yoe / 100 ≤ doe ∧ doe ≤ 365 * yoe + yoe / 4 - yoe / 100 + 365 := by
  have hlower : 365 * yoe ≤ doe - doe / 1460 + doe / 36524 - doe / 146096 := by omega
  have hupper : doe - doe / 1460 + doe / 36524 - doe / 146096 < 365 * yoe + 365 := by omega
  have hc : yoe / 100 < 4 := by omega
  have he : doe / 36524 < 5 := by omega
  have hf : doe / 146096 < 2 := by omega
  -- by centuries: what is left is linear in the leap days
  generalize hE : doe / 36524 = e at *
  generalize hF : doe / 146096 = f at *
  generalize hC : yoe / 100 = c at *
  generalize hB : yoe / 4 = b at *
  generalize hG : doe / 1460 = g at *
  constructor
  · interval_cases e <;> interval_cases f <;> interval_cases c <;> omega
  · interval_cases e <;> interval_cases f <;> interval_cases c <;> omega

theorem year_nonneg {days : Int} (h : -719468 ≤ days) : 0 ≤ (civil days).1 := by
  unfold civil
  dsimp only
  split <;> omega

/-- The number of a day that is given by its year in an era of 400 years and its place in that year. -/
theorem dayNumber_parts (era : Int) {yoe mp : Nat} (day : Nat) (hyoe : yoe < 400) (hmp : mp ≤ 11) :
    dayNumber (if (if mp < 10 then mp + 3 else mp - 9) ≤ 2 then (yoe : Int) + era * 400 + 1 else yoe + era * 400)
        (if mp < 10 then mp + 3 else mp - 9) day =
      era * 146097 + (365 * yoe + yoe / 4 - yoe / 100 + ((153 * mp + 2) / 5 + day - 1) : Nat) - 719468 := by
  unfold dayNumber
  dsimp only
  by_cases hlate : mp < 10
  · have hmonth : ¬ mp + 3 ≤ 2 := by omega
    have hera : ((yoe : Int) + era * 400) / 400 = era := by omega
    have hrest : (((yoe : Int) + era * 400) % 400).toNat = yoe := by omega
    simp only [if_pos hlate, if_neg hmonth, hera, hrest, Nat.add_sub_cancel]
  · have hmonth : mp - 9 ≤ 2 := by omega
    have hera : ((yoe : Int) + era * 400 + 1 - 1) / 400 = era := by omega
    have hrest : (((yoe : Int) + era * 400 + 1 - 1) % 400).toNat = yoe := by omega
    have hsame : mp - 9 + 9 = mp := by omega
    simp only [if_neg hlate, if_pos hmonth, hera, hrest, hsame]

/-- **A day is found again by its date.** -/
theorem dayNumber_civil (days : Int) : dayNumber (civil days).1 (civil days).2.1 (civil days).2.2 = days := by
  have hdoe : ((days + 719468) % 146097).toNat < 146097 := by omega
  have hsplit : (days + 719468) / 146097 * 146097 + (((days + 719468) % 146097).toNat : Int) = days + 719468 := by
    omega
  obtain ⟨hlower, hupper⟩ := day_in_year hdoe rfl
  have hyoe := day_in_year_lt hdoe
  refine (dayNumber_parts _ _ hyoe (by omega)).trans ?_
  unfold civil
  dsimp only
  generalize ((days + 719468) % 146097).toNat = doe at *
  generalize (doe - doe / 1460 + doe / 36524 - doe / 146096) / 365 = yoe at *
  generalize 365 * yoe + yoe / 4 - yoe / 100 = first at *
  have hmonth : (153 * ((5 * (doe - first) + 2) / 153) + 2) / 5 ≤ doe - first := by omega
  generalize (153 * ((5 * (doe - first) + 2) / 153) + 2) / 5 = before at *
  have hday : first + (before + (doe - first - before + 1) - 1) = doe := by omega
  rw [hday]
  omega

/-! ## Texts -/

/-- A number with at least so many digits. -/
def padded (width n : Nat) : String :=
  let digits := toString n
  String.ofList (List.replicate (width - digits.length) '0') ++ digits

def isoformat (instant : Int) : String :=
  let days := instant / 86400000000
  let rest := (instant % 86400000000).toNat
  let (year, month, day) := civil days
  let seconds := rest / 1000000
  let micros := rest % 1000000
  let fraction := if micros = 0 then "" else "." ++ padded 6 micros
  padded 4 year.toNat ++ "-" ++ padded 2 month ++ "-" ++ padded 2 day ++ "T" ++ padded 2 (seconds / 3600) ++ ":"
    ++ padded 2 (seconds / 60 % 60) ++ ":" ++ padded 2 (seconds % 60) ++ fraction ++ "+00:00"

/-- The numbers in a text; `acc` is the one that is being read. -/
def numbers : Option Nat → List Char → List Nat
  | acc, [] => acc.toList
  | acc, c :: cs =>
    if c.isDigit then numbers (some (10 * acc.getD 0 + (c.toNat - '0'.toNat))) cs
    else acc.toList ++ numbers none cs

/-- `datetime.fromisoformat`, for the texts that `isoformat` writes. -/
def fromIsoformat? (text : String) : Option Int :=
  match numbers none text.toList with
  | year :: month :: day :: hours :: minutes :: seconds :: rest =>
    let micros := match rest with
      | [micros, _, _] => micros
      | _ => 0
    let instant := (dayNumber year month day * 86400 + (hours * 3600 + minutes * 60 + seconds : Nat)) * 1000000 + micros
    if isoformat instant = text then some instant else none
  | _ => none

/-! ## Reading -/

theorem numbers_digits {digits : List Char} (hdigits : ∀ c ∈ digits, c.isDigit = true) (n : Nat) (rest : List Char) :
    numbers (some n) (digits ++ rest) = numbers (some (Nat.ofDigitChars 10 digits n)) rest := by
  induction digits generalizing n with
  | nil => rfl
  | cons c digits ih =>
    rw [List.cons_append, numbers, if_pos (hdigits c List.mem_cons_self),
      ih (fun d hd => hdigits d (List.mem_cons_of_mem _ hd)), Nat.ofDigitChars_cons]
    rfl

theorem numbers_padded (width n : Nat) {sep : Char} (hsep : sep.isDigit = false) (rest : List Char) :
    numbers none ((padded width n).toList ++ sep :: rest) = n :: numbers none rest := by
  have hchars : (padded width n).toList =
      List.replicate (width - (toString n).length) '0' ++ Nat.toDigits 10 n := by
    unfold padded
    rw [String.toList_append, String.toList_ofList]
    exact congrArg _ Nat.toList_repr
  have hdigits : ∀ c ∈ (padded width n).toList, c.isDigit = true := by
    intro c hc
    rw [hchars] at hc
    rcases List.mem_append.mp hc with hzero | hdigit
    · rw [List.eq_of_mem_replicate hzero]
      rfl
    · exact Nat.isDigit_of_mem_toDigits (by omega) (by omega) hdigit
  have hvalue : Nat.ofDigitChars 10 (padded width n).toList 0 = n := by
    rw [hchars, Nat.ofDigitChars_append, Nat.ofDigitChars_replicate_zero, Nat.mul_zero,
      Nat.ofDigitChars_toDigits (by omega) (by omega)]
  have hne : (padded width n).toList ≠ [] := by
    rw [hchars]
    intro hnil
    exact Nat.toDigits_ne_nil (List.append_eq_nil_iff.mp hnil).2
  cases hlist : (padded width n).toList with
  | nil => exact absurd hlist hne
  | cons c cs =>
    rw [hlist] at hdigits hvalue
    have hstart : numbers none (c :: cs ++ sep :: rest) = numbers (some 0) (c :: cs ++ sep :: rest) := by
      rw [List.cons_append, numbers, numbers]
      simp only [if_pos (hdigits c List.mem_cons_self), Option.getD_none, Option.getD_some]
    rw [hstart, numbers_digits hdigits, hvalue, numbers, if_neg (by rw [hsep]; exact Bool.false_ne_true)]
    rfl

theorem numbers_isoformat (instant : Int) :
    let date := civil (instant / 86400000000)
    let rest := (instant % 86400000000).toNat
    numbers none (isoformat instant).toList =
      [date.1.toNat, date.2.1, date.2.2, rest / 1000000 / 3600, rest / 1000000 / 60 % 60, rest / 1000000 % 60] ++
        ((if rest % 1000000 = 0 then [] else [rest % 1000000]) ++ [0, 0]) := by
  have hdash : ∀ cs : List Char, "-".toList ++ cs = '-' :: cs := fun _ => rfl
  have hcolon : ∀ cs : List Char, ":".toList ++ cs = ':' :: cs := fun _ => rfl
  have hT : ∀ cs : List Char, "T".toList ++ cs = 'T' :: cs := fun _ => rfl
  have hoffset : "+00:00".toList = '+' :: ['0', '0', ':', '0', '0'] := rfl
  have hzone : numbers none ['0', '0', ':', '0', '0'] = [0, 0] := by decide
  dsimp only
  unfold isoformat
  dsimp only
  simp only [String.toList_append, List.append_assoc, List.cons_append, hdash, hcolon, hT, hoffset]
  rw [numbers_padded 4 _ (by decide), numbers_padded 2 _ (by decide), numbers_padded 2 _ (by decide),
    numbers_padded 2 _ (by decide), numbers_padded 2 _ (by decide)]
  by_cases hwhole : (instant % 86400000000).toNat % 1000000 = 0
  · simp only [if_pos hwhole]
    rw [show "".toList = [] from rfl, List.nil_append, numbers_padded 2 _ (by decide), hzone]
    rfl
  · simp only [if_neg hwhole, String.toList_append, List.append_assoc]
    rw [show ∀ cs : List Char, ".".toList ++ cs = '.' :: cs from fun _ => rfl, numbers_padded 2 _ (by decide),
      numbers_padded 6 _ (by decide), hzone]
    rfl

/-- **A text that was written is read again**, for the instants from the year 0 on. -/
theorem fromIsoformat?_isoformat {instant : Int} (h : -62162035200000000 ≤ instant) :
    fromIsoformat? (isoformat instant) = some instant := by
  have hyear := year_nonneg (show -719468 ≤ instant / 86400000000 by omega)
  have hday := dayNumber_civil (instant / 86400000000)
  have hnumbers := numbers_isoformat instant
  dsimp only at hnumbers
  rw [← Int.toNat_of_nonneg hyear] at hday
  have hinstant : instant / 86400000000 * 86400000000 + ((instant % 86400000000).toNat : Int) = instant := by omega
  generalize (instant % 86400000000).toNat = rest at hnumbers hinstant
  generalize hw : isoformat instant = text at hnumbers
  unfold fromIsoformat?
  rw [hnumbers]
  by_cases hwhole : rest % 1000000 = 0
  · simp only [if_pos hwhole, List.cons_append, List.nil_append, hday]
    rw [if_pos]
    · congr 1
      omega
    · rw [← hw]
      congr 1
      omega
  · simp only [if_neg hwhole, List.cons_append, List.nil_append, hday]
    rw [if_pos]
    · congr 1
      omega
    · rw [← hw]
      congr 1
      omega

end DateTime
