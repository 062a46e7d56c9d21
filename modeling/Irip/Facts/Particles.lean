import Irip.Facts.Quality

/-!
# `Facts.Particles` — when the verdicts on particle sizes are those of the sizes themselves

A quantile is given in µm or in mm. The rules read the number and leave the unit aside.
-/

namespace Irip.Facts.Quality

open Evaluation (bind_ok_iff)

/-! ## Readings -/

/-- The number that `float(·)` makes of a value. -/
def number (v : Json) : Option FloatNum := (pyFloat v).toOption

theorem floatOrNone_ok {v : Json} (h : ¬ TooLarge v) : floatOrNone v = .ok (number v) := by
  unfold floatOrNone number
  cases hv : pyFloat v with
  | ok x => rfl
  | error e =>
    cases e with
    | typeError => rfl
    | valueError => rfl
    | overflowError => exact absurd (pyFloat_overflow_iff.mp hv) h

theorem floatOrNone_tooLarge {v : Json} (h : TooLarge v) (o : Option FloatNum) : floatOrNone v ≠ .ok o := by
  unfold floatOrNone
  rw [pyFloat_overflow_iff.mpr h]
  intro ho
  cases ho

theorem presentNumber_eq (v : Json) : presentNumber v = floatOrNone v := by
  cases v with
  | null => rfl
  | _ => rfl

/-- The first field of the two that is not null. -/
def firstField (observations : Observations) (first second : String) : Json :=
  match Json.get observations first with
  | .null => Json.get observations second
  | v => v

theorem firstNumber_eq (observations : Observations) (first second : String) :
    firstNumber observations first second = floatOrNone (firstField observations first second) := by
  unfold firstNumber firstField
  cases Json.get observations first with
  | null => exact presentNumber_eq _
  | _ => rfl

/-- The field that a quantile is read from. -/
def quantileField (observations : Observations) (name : String) : Json :=
  firstField observations (name ++ "_um") (name ++ "_mm")

/-- The values that the default rules read. -/
def readFields (observations : Observations) : List Json :=
  [quantileField observations "d10", quantileField observations "d50", quantileField observations "d90",
   Json.get observations "specific_surface", firstField observations "moisture_pct" "moisture"]

/-- Nothing that is read is too large. -/
def Readable (observations : Observations) : Prop := ∀ v ∈ readFields observations, ¬ TooLarge v

/-! ## Rules -/

section Rules

variable {observations : Observations}

theorem getQuantile_ok (h : Readable observations) {name : String}
    (hname : quantileField observations name ∈ readFields observations) :
    getQuantile observations name = .ok (number (quantileField observations name)) := by
  unfold getQuantile
  rw [firstNumber_eq]
  exact floatOrNone_ok (h _ hname)

/-- The number of a quantile. -/
def quantile (observations : Observations) (name : String) : Option FloatNum := number (quantileField observations name)

/-- The number of the specific surface. -/
def surface (observations : Observations) : Option FloatNum := number (Json.get observations "specific_surface")

theorem quantiles_ok (h : Readable observations) :
    getQuantile observations "d10" = .ok (quantile observations "d10") ∧
    getQuantile observations "d50" = .ok (quantile observations "d50") ∧
    getQuantile observations "d90" = .ok (quantile observations "d90") :=
  ⟨getQuantile_ok h (by simp [readFields]), getQuantile_ok h (by simp [readFields]), getQuantile_ok h (by simp [readFields])⟩

theorem requiredField_returns (h : Readable observations) : ∃ result, requiredField.evaluate observations = .ok (some result) ∧
    (result.status = .blocked ↔
      (quantile observations "d10" = none ∨ quantile observations "d50" = none ∨ quantile observations "d90" = none)) := by
  obtain ⟨h10, h50, h90⟩ := quantiles_ok h
  unfold requiredField
  dsimp only
  rw [h10, h50, h90]
  generalize quantile observations "d10" = x
  generalize quantile observations "d50" = y
  generalize quantile observations "d90" = z
  cases x with
  | none => exact ⟨_, rfl, fun _ => .inl rfl, fun _ => rfl⟩
  | some x =>
    cases y with
    | none => exact ⟨_, rfl, fun _ => .inr (.inl rfl), fun _ => rfl⟩
    | some y =>
      cases z with
      | none => exact ⟨_, rfl, fun _ => .inr (.inr rfl), fun _ => rfl⟩
      | some z =>
        refine ⟨_, rfl, fun hblocked => ?_, fun hnone => ?_⟩
        · cases hblocked
        · rcases hnone with hnone | hnone | hnone <;> cases hnone

/-- The numbers that have to be positive. -/
def checkedNumbers (observations : Observations) : List (String × FloatNum) :=
  [("d10_um", quantile observations "d10"), ("d50_um", quantile observations "d50"), ("d90_um", quantile observations "d90"),
   ("specific_surface", surface observations)].filterMap (fun q => q.2.map (fun x => (q.1, x)))

theorem fieldsToCheck_ok (h : Readable observations) : fieldsToCheck observations = .ok (checkedNumbers observations) := by
  obtain ⟨h10, h50, h90⟩ := quantiles_ok h
  unfold fieldsToCheck
  rw [h10, h50, h90, presentNumber_eq, floatOrNone_ok (h (Json.get observations "specific_surface") (by simp [readFields]))]
  rfl

theorem positiveValue_returns (h : Readable observations) : ∃ result, positiveValue.evaluate observations = .ok result ∧
    ((∃ r, result = some r ∧ r.status = .blocked) ↔ ∃ q ∈ checkedNumbers observations, le q.2 zero = true) := by
  unfold positiveValue
  dsimp only
  rw [fieldsToCheck_ok h]
  generalize checkedNumbers observations = fields
  show ∃ result, (if fields.isEmpty = true then _ else _) = _ ∧ _
  by_cases hempty : fields.isEmpty = true
  · rw [if_pos hempty]
    refine ⟨none, rfl, fun hr => ?_, fun hq => ?_⟩
    · obtain ⟨_, hr, _⟩ := hr
      cases hr
    · obtain ⟨q, hq, _⟩ := hq
      rw [List.isEmpty_iff.mp hempty] at hq
      exact absurd hq List.not_mem_nil
  · rw [if_neg hempty]
    by_cases hnone : (fields.filter (fun q => le q.2 zero)).isEmpty = true
    · rw [if_pos hnone]
      refine ⟨_, rfl, fun hr => ?_, fun hq => ?_⟩
      · obtain ⟨r, hr, hblocked⟩ := hr
        obtain rfl := Option.some.inj hr
        cases hblocked
      · obtain ⟨q, hq, hle⟩ := hq
        have hmem : q ∈ fields.filter (fun q => le q.2 zero) := List.mem_filter.mpr ⟨hq, hle⟩
        rw [List.isEmpty_iff.mp hnone] at hmem
        exact absurd hmem List.not_mem_nil
    · rw [if_neg hnone]
      refine ⟨_, rfl, fun _ => ?_, fun _ => ⟨_, rfl, rfl⟩⟩
      obtain ⟨q, hq⟩ := List.exists_mem_of_ne_nil _ (fun hnil => hnone (List.isEmpty_iff.mpr hnil))
      exact ⟨q, (List.mem_filter.mp hq).1, (List.mem_filter.mp hq).2⟩

theorem moistureRange_returns (h : Readable observations) : ∃ result, moistureRange.evaluate observations = .ok result ∧
    ∀ r, result = some r → r.status ≠ .blocked := by
  have hread : firstNumber observations "moisture_pct" "moisture" =
      .ok (number (firstField observations "moisture_pct" "moisture")) := by
    rw [firstNumber_eq]
    exact floatOrNone_ok (h _ (by simp [readFields]))
  unfold moistureRange
  dsimp only
  rw [hread]
  cases number (firstField observations "moisture_pct" "moisture") with
  | none => exact ⟨none, rfl, fun r hr => by cases hr⟩
  | some x =>
    refine ⟨_, rfl, fun r hr => ?_⟩
    obtain rfl := Option.some.inj hr
    show (if threshold.lt x then Status.warning else Status.passed) ≠ .blocked
    split <;> decide

theorem particleQuantileOrder_returns (h : Readable observations) :
    ∃ result, particleQuantileOrder.evaluate observations = .ok result ∧
    ((∃ r, result = some r ∧ r.status = .blocked) ↔
      ∃ x y z, quantile observations "d10" = some x ∧ quantile observations "d50" = some y ∧
        quantile observations "d90" = some z ∧ ¬ (x.lt y = true ∧ y.lt z = true)) := by
  obtain ⟨h10, h50, h90⟩ := quantiles_ok h
  unfold particleQuantileOrder
  dsimp only
  rw [h10, h50, h90]
  generalize quantile observations "d10" = x
  generalize quantile observations "d50" = y
  generalize quantile observations "d90" = z
  cases x with
  | none =>
    refine ⟨none, rfl, fun ⟨_, hr, _⟩ => ?_, fun ⟨_, _, _, hx, _⟩ => ?_⟩
    · cases hr
    · cases hx
  | some x =>
    cases y with
    | none =>
      refine ⟨none, rfl, fun ⟨_, hr, _⟩ => ?_, fun ⟨_, _, _, _, hy, _⟩ => ?_⟩
      · cases hr
      · cases hy
    | some y =>
      cases z with
      | none =>
        refine ⟨none, rfl, fun ⟨_, hr, _⟩ => ?_, fun ⟨_, _, _, _, _, hz, _⟩ => ?_⟩
        · cases hr
        · cases hz
      | some z =>
        refine ⟨_, rfl, fun ⟨r, hr, hblocked⟩ => ⟨x, y, z, rfl, rfl, rfl, fun horder => ?_⟩, fun hout => ?_⟩
        · obtain rfl := Option.some.inj hr
          change (if (x.lt y && y.lt z) = true then Status.passed else Status.blocked) = .blocked at hblocked
          rw [if_pos (by rw [horder.1, horder.2]; rfl)] at hblocked
          cases hblocked
        · obtain ⟨_, _, _, hx, hy, hz, hout⟩ := hout
          obtain rfl := Option.some.inj hx
          obtain rfl := Option.some.inj hy
          obtain rfl := Option.some.inj hz
          refine ⟨_, rfl, ?_⟩
          show (if (x.lt y && y.lt z) = true then Status.passed else Status.blocked) = .blocked
          rw [if_neg (by rwa [Bool.and_eq_true])]

end Rules

/-! ## Sizes -/

theorem le_of_lt_false {x y : FloatNum} (h : y.lt x = true) : le x y = false := by
  cases x with
  | nan => cases y <;> cases h
  | val x =>
    cases y with
    | nan => cases h
    | val y =>
      have hlt : y < x := of_decide_eq_true h
      unfold le
      simp [FloatNum.lt, hlt.not_gt, hlt.ne']

theorem pos_or_nan {x : FloatNum} (h : le x zero = false) : zero.lt x = true ∨ x = .nan := by
  cases x with
  | nan => exact .inr rfl
  | val x =>
    unfold le zero FloatNum.fin at h
    rw [Bool.or_eq_false_iff] at h
    left
    apply decide_eq_true
    refine lt_of_le_of_ne (not_lt.mp (of_decide_eq_false h.1)) (fun heq => ?_)
    rw [← heq] at h
    simp at h

/-- Three numbers that are positive and ascend. -/
def Ascending (x y z : Option FloatNum) : Prop :=
  ∃ a b c, x = some a ∧ y = some b ∧ z = some c ∧ zero.lt a = true ∧ a.lt b = true ∧ b.lt c = true

/-- **The verdict of the default rules**: it blocks unless the numbers ascend and the surface is not found to be zero or less. -/
theorem defaultRules_spec {observations : Observations} (h : Readable observations) :
    ∃ assessment, evaluate defaultRules observations = .ok assessment ∧ (assessment.overallStatus ≠ .blocked ↔
      Ascending (quantile observations "d10") (quantile observations "d50") (quantile observations "d90") ∧
      ∀ s, surface observations = some s → le s zero = false) := by
  obtain ⟨required, hrequired, hmissing⟩ := requiredField_returns h
  obtain ⟨positive, hpositive, hnonPositive⟩ := positiveValue_returns h
  obtain ⟨moisture, hmoisture, hdry⟩ := moistureRange_returns h
  obtain ⟨order, horder, hdisorder⟩ := particleQuantileOrder_returns h
  have hreturns : ∀ rule ∈ defaultRules, ∃ result, rule.evaluate observations = .ok result := by
    intro rule hrule
    simp only [defaultRules, List.mem_cons, List.not_mem_nil, or_false] at hrule
    rcases hrule with rfl | rfl | rfl | rfl
    · exact ⟨_, hrequired⟩
    · exact ⟨_, hpositive⟩
    · exact ⟨_, hmoisture⟩
    · exact ⟨_, horder⟩
  obtain ⟨assessment, hassessment⟩ := evaluate_returns.mpr hreturns
  refine ⟨assessment, hassessment, ?_⟩
  have hblocks : ∀ {rule : QualityRule} {result : Option QualityResult}, rule.evaluate observations = .ok result →
      (Blocks rule observations ↔ ∃ r, result = some r ∧ r.status = .blocked) := by
    intro rule result hresult
    unfold Blocks
    rw [hresult]
    simp only [Except.ok.injEq]
  have hrules : (∃ rule ∈ defaultRules, Blocks rule observations) ↔
      (quantile observations "d10" = none ∨ quantile observations "d50" = none ∨ quantile observations "d90" = none) ∨
      (∃ q ∈ checkedNumbers observations, le q.2 zero = true) ∨
      (∃ x y z, quantile observations "d10" = some x ∧ quantile observations "d50" = some y ∧
        quantile observations "d90" = some z ∧ ¬ (x.lt y = true ∧ y.lt z = true)) := by
    simp only [defaultRules, List.mem_cons, List.not_mem_nil, or_false, exists_eq_or_imp, exists_eq_left]
    rw [hblocks hrequired, hblocks hpositive, hblocks hmoisture, hblocks horder, hnonPositive, hdisorder]
    simp only [Option.some.injEq, exists_eq_left', hmissing]
    constructor
    · rintro (hnone | hle | ⟨r, hr, hblocked⟩ | hout)
      · exact .inl hnone
      · exact .inr (.inl hle)
      · exact absurd hblocked (hdry r hr)
      · exact .inr (.inr hout)
    · rintro (hnone | hle | hout)
      · exact .inl hnone
      · exact .inr (.inl hle)
      · exact .inr (.inr (.inr hout))
  have hchecked : (∃ q ∈ checkedNumbers observations, le q.2 zero = true) ↔
      (∃ x, quantile observations "d10" = some x ∧ le x zero = true) ∨ (∃ x, quantile observations "d50" = some x ∧ le x zero = true) ∨
      (∃ x, quantile observations "d90" = some x ∧ le x zero = true) ∨ ∃ x, surface observations = some x ∧ le x zero = true := by
    unfold checkedNumbers
    simp only [List.mem_filterMap, List.mem_cons, List.not_mem_nil, or_false, Option.map_eq_some_iff]
    constructor
    · rintro ⟨_, ⟨_, rfl | rfl | rfl | rfl, x, hx, rfl⟩, hle⟩
      · exact .inl ⟨x, hx, hle⟩
      · exact .inr (.inl ⟨x, hx, hle⟩)
      · exact .inr (.inr (.inl ⟨x, hx, hle⟩))
      · exact .inr (.inr (.inr ⟨x, hx, hle⟩))
    · rintro (⟨x, hx, hle⟩ | ⟨x, hx, hle⟩ | ⟨x, hx, hle⟩ | ⟨x, hx, hle⟩)
      · exact ⟨_, ⟨_, .inl rfl, x, hx, rfl⟩, hle⟩
      · exact ⟨_, ⟨_, .inr (.inl rfl), x, hx, rfl⟩, hle⟩
      · exact ⟨_, ⟨_, .inr (.inr (.inl rfl)), x, hx, rfl⟩, hle⟩
      · exact ⟨_, ⟨_, .inr (.inr (.inr rfl)), x, hx, rfl⟩, hle⟩
  rw [ne_eq, evaluate_blocked hassessment, hrules, hchecked]
  constructor
  · intro hnot
    push Not at hnot
    obtain ⟨⟨h10, h50, h90⟩, ⟨hp10, _, _, hsurface⟩, hascend⟩ := hnot
    obtain ⟨a, ha⟩ := Option.ne_none_iff_exists'.mp h10
    obtain ⟨b, hb⟩ := Option.ne_none_iff_exists'.mp h50
    obtain ⟨c, hc⟩ := Option.ne_none_iff_exists'.mp h90
    obtain ⟨hab, hbc⟩ := hascend a b c ha hb hc
    have hpos : zero.lt a = true := by
      rcases pos_or_nan (by simpa using hp10 a ha) with hpos | rfl
      · exact hpos
      · cases hab
    refine ⟨⟨a, b, c, ha, hb, hc, hpos, hab, hbc⟩, fun s hs => ?_⟩
    simpa using hsurface s hs
  · rintro ⟨⟨a, b, c, ha, hb, hc, hpos, hab, hbc⟩, hsurface⟩ hout
    have hb0 := FloatNum.lt_trans hpos hab
    have hc0 := FloatNum.lt_trans hb0 hbc
    rw [ha, hb, hc] at hout
    rcases hout with hnone | (⟨x, hx, hle⟩ | ⟨x, hx, hle⟩ | ⟨x, hx, hle⟩ | ⟨x, hx, hle⟩) | ⟨x, y, z, hx, hy, hz, hout⟩
    · rcases hnone with hnone | hnone | hnone <;> cases hnone
    · cases hx
      rw [le_of_lt_false hpos] at hle
      cases hle
    · cases hx
      rw [le_of_lt_false hb0] at hle
      cases hle
    · cases hx
      rw [le_of_lt_false hc0] at hle
      cases hle
    · rw [hsurface x hx] at hle
      cases hle
    · cases hx
      cases hy
      cases hz
      exact hout ⟨hab, hbc⟩

/-- The number in units that are `c` times smaller. -/
def scale (c : ℚ) : FloatNum → FloatNum
  | .nan => .nan
  | .val x => .val (WithBot.map (WithTop.map (fun q => c * q)) x)

/-- How many µm the unit of a quantile is. -/
def unit (observations : Observations) (name : String) : ℚ :=
  match Json.get observations (name ++ "_um") with
  | .null => 1000
  | _ => 1

/-- The size of a quantile in µm. -/
def size (observations : Observations) (name : String) : Option FloatNum :=
  (quantile observations name).map (scale (unit observations name))

def NumbersAscend (observations : Observations) : Prop :=
  Ascending (quantile observations "d10") (quantile observations "d50") (quantile observations "d90")

def SizesAscend (observations : Observations) : Prop :=
  Ascending (size observations "d10") (size observations "d50") (size observations "d90")

/-- The sizes are positive and ascend, and a surface that is a number is positive. -/
def Physical (observations : Observations) : Prop :=
  SizesAscend observations ∧ ∀ s, surface observations = some s → zero.lt s = true

/-! ## Result -/

/-- The engine returns the verdict that the sizes call for, the worst of its results. -/
def Judged (observations : Observations) : Prop :=
  ∃ assessment, evaluate defaultRules observations = .ok assessment ∧
    (assessment.overallStatus ≠ .blocked ↔ Physical observations) ∧ Worst assessment.results assessment.overallStatus

/-- Everything can be read, a surface that is NaN comes with sizes that are refused anyway, and the numbers are in the order of
the sizes, where the surface does not decide. -/
structure Comparable (observations : Observations) : Prop where
  readable : Readable observations
  surface : surface observations = some .nan → ¬ NumbersAscend observations
  order : (∀ s, Quality.surface observations = some s → zero.lt s = true) →
    (NumbersAscend observations ↔ SizesAscend observations)

section Result

variable {observations : Observations}

theorem not_tooLarge_of_ok {v : Json} {o : Option FloatNum} (h : floatOrNone v = .ok o) : ¬ TooLarge v :=
  fun hlarge => floatOrNone_tooLarge hlarge o h

theorem readable_of_returns {assessment : QualityAssessment} (h : evaluate defaultRules observations = .ok assessment) :
    Readable observations := by
  have hrules := evaluate_returns.mp ⟨assessment, h⟩
  have hquantile : ∀ {name : String} {o : Option FloatNum}, getQuantile observations name = .ok o →
      ¬ TooLarge (quantileField observations name) := by
    intro name o hok
    unfold getQuantile at hok
    rw [firstNumber_eq] at hok
    exact not_tooLarge_of_ok hok
  obtain ⟨_, hrequired⟩ := hrules requiredField (by simp [defaultRules])
  obtain ⟨_, h10, hrequired⟩ := bind_ok_iff.mp hrequired
  obtain ⟨_, h50, hrequired⟩ := bind_ok_iff.mp hrequired
  obtain ⟨_, h90, _⟩ := bind_ok_iff.mp hrequired
  obtain ⟨_, hpositive⟩ := hrules positiveValue (by simp [defaultRules])
  obtain ⟨_, hfields, _⟩ := bind_ok_iff.mp hpositive
  obtain ⟨_, _, hfields⟩ := bind_ok_iff.mp hfields
  obtain ⟨_, _, hfields⟩ := bind_ok_iff.mp hfields
  obtain ⟨_, _, hfields⟩ := bind_ok_iff.mp hfields
  obtain ⟨_, hsurface, _⟩ := bind_ok_iff.mp hfields
  rw [presentNumber_eq] at hsurface
  obtain ⟨_, hmoisture⟩ := hrules moistureRange (by simp [defaultRules])
  obtain ⟨_, hmoisture, _⟩ := bind_ok_iff.mp hmoisture
  rw [firstNumber_eq] at hmoisture
  intro v hv
  simp only [readFields, List.mem_cons, List.not_mem_nil, or_false] at hv
  rcases hv with rfl | rfl | rfl | rfl | rfl
  · exact hquantile h10
  · exact hquantile h50
  · exact hquantile h90
  · exact not_tooLarge_of_ok hsurface
  · exact not_tooLarge_of_ok hmoisture

theorem judged_spec (h : Judged observations) : Readable observations ∧
    ((NumbersAscend observations ∧ ∀ s, surface observations = some s → le s zero = false) ↔ Physical observations) := by
  obtain ⟨assessment, hassessment, hphysical, _⟩ := h
  have hreadable := readable_of_returns hassessment
  obtain ⟨found, hfound, hspec⟩ := defaultRules_spec hreadable
  rw [hassessment] at hfound
  obtain rfl := Except.ok.inj hfound
  exact ⟨hreadable, hspec.symm.trans hphysical⟩

/-- **The verdicts are those of the sizes** exactly where the numbers can be compared. -/
theorem judged_iff (observations : Observations) : Judged observations ↔ Comparable observations := by
  constructor
  · intro h
    obtain ⟨hreadable, hiff⟩ := judged_spec h
    refine ⟨hreadable, fun hnan hnumbers => ?_, fun hpos => ?_⟩
    · have hphysical := hiff.mp ⟨hnumbers, fun s hs => by rw [hnan] at hs; cases hs; rfl⟩
      have := hphysical.2 .nan hnan
      cases this
    · constructor
      · intro hnumbers
        exact (hiff.mp ⟨hnumbers, fun s hs => le_of_lt_false (hpos s hs)⟩).1
      · intro hsizes
        exact (hiff.mpr ⟨hsizes, hpos⟩).1
  · rintro ⟨hreadable, hnan, horder⟩
    obtain ⟨assessment, hassessment, hspec⟩ := defaultRules_spec hreadable
    refine ⟨assessment, hassessment, hspec.trans ?_, evaluate_worst hassessment⟩
    constructor
    · rintro ⟨hnumbers, hsurface⟩
      have hpos : ∀ s, surface observations = some s → zero.lt s = true := by
        intro s hs
        rcases pos_or_nan (hsurface s hs) with hpos | rfl
        · exact hpos
        · exact absurd hnumbers (hnan hs)
      exact ⟨(horder hpos).mp hnumbers, hpos⟩
    · rintro ⟨hsizes, hpos⟩
      exact ⟨(horder hpos).mpr hsizes, fun s hs => le_of_lt_false (hpos s hs)⟩

end Result

/-- A D10 of 1 mm, a D50 of 2 µm and a D90 of 3 µm. -/
def mixedUnits : Observations := [("d10_mm", .int 1), ("d50_um", .int 2), ("d90_um", .int 3)]

/-- They pass, although the first is the largest. -/
theorem not_judged_mixed : ¬ Judged mixedUnits := by
  intro h
  have h10 : quantile mixedUnits "d10" = some (.fin 1) := by decide +kernel
  have h50 : quantile mixedUnits "d50" = some (.fin 2) := by decide +kernel
  have h90 : quantile mixedUnits "d90" = some (.fin 3) := by decide +kernel
  have hsurface : surface mixedUnits = none := by decide +kernel
  obtain ⟨_, hiff⟩ := judged_spec h
  have hnumbers : NumbersAscend mixedUnits :=
    ⟨.fin 1, .fin 2, .fin 3, h10, h50, h90, by decide +kernel, by decide +kernel, by decide +kernel⟩
  obtain ⟨⟨a, b, _, ha, hb, _, _, hab, _⟩, _⟩ := hiff.mp ⟨hnumbers, fun s hs => by rw [hsurface] at hs; cases hs⟩
  have hsize10 : size mixedUnits "d10" = some (.fin 1000) := by decide +kernel
  have hsize50 : size mixedUnits "d50" = some (.fin 2) := by decide +kernel
  rw [hsize10] at ha
  rw [hsize50] at hb
  cases ha
  cases hb
  revert hab
  decide +kernel

end Irip.Facts.Quality
