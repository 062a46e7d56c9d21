import Irip.Base.Sha256
import Irip.Numeric.Facade
import Mathlib.Data.UInt

/-!
# `Numeric.Results` — what the model and the audit are told of a result

`NullsStandOut` is the condition for results to be reported as they are.
-/

namespace Irip.Numeric

open Evaluation (bind_ok_iff)

variable {F : Type}

/-! ## Data for the model -/

/-- The data of a result. A number that is `none` is a JSON null. -/
inductive LlmData (F : Type) where
  | scalar (value : Option F)
  | vector (count : Nat) (values : List (Option F))
  | preview (count : Nat) (head tail : List (Option F)) (sha256 : String)

/-- `_normalize_zero(float(v))` for the numbers of a series; the mask is not looked at. -/
def previewValues (A : Arith F) (cells : List (Cell F)) : List (Option F) :=
  cells.map (fun c => some (A.normalizeZero c.value))

/-- `vector[-count:]`. -/
def lastCells (count : Nat) (cells : List (Cell F)) : List (Cell F) := cells.drop (cells.length - count)

/-! ## Digests -/

variable (tobytes : F → List UInt8)

/-- `b"null"`. -/
def nullBytes : List UInt8 := [0x6e, 0x75, 0x6c, 0x6c]

/-- `hashlib.sha256(message).hexdigest()`. -/
def sha256 (message : List UInt8) : String := Sha256.digest (message.map UInt8.toNat)

/-- `np.ascontiguousarray(vector.astype(np.float64)).tobytes()`. -/
def vectorBytes (cells : List (Cell F)) : List UInt8 := (cells.map Cell.value).flatMap tobytes

def computeVectorDigest (cells : List (Cell F)) : String := sha256 (vectorBytes tobytes cells)

/-- The bytes that are hashed for a result. -/
def message : Payload F → List UInt8
  | .nullScalar => nullBytes
  | .scalar x => tobytes x
  | .vector cells => vectorBytes tobytes cells

def computeResultDigest : Payload F → String
  | .nullScalar => sha256 nullBytes
  | .scalar x => sha256 (tobytes x)
  | .vector cells => computeVectorDigest tobytes cells

theorem computeResultDigest_eq (r : Payload F) : computeResultDigest tobytes r = sha256 (message tobytes r) := by
  cases r with
  | nullScalar => rfl
  | scalar x => rfl
  | vector cells => rfl

/-- `_build_evaluate_llm_data`, for the limit `vector_preview_threshold`. -/
def buildEvaluateLlmData (A : Arith F) (vectorPreviewThreshold : Nat) : Payload F → LlmData F
  | .nullScalar => .scalar none
  | .scalar x => .scalar (some x)
  | .vector cells =>
    if cells.length ≤ vectorPreviewThreshold then .vector cells.length (previewValues A cells)
    else
      .preview cells.length (previewValues A (cells.take 5)) (previewValues A (lastCells 5 cells))
        (computeVectorDigest tobytes cells)

/-! ## Observations -/

/-- What a position is: null, or the number that was computed. -/
def Cell.report (c : Cell F) : Option F := if c.null then none else some c.value

/-- The data shows nulls where the result has them, and the numbers elsewhere. -/
def LlmFaithful : Payload F → LlmData F → Prop
  | .nullScalar, .scalar value => value = none
  | .scalar x, .scalar value => value = some x
  | .vector cells, .vector count values => count = cells.length ∧ values = cells.map Cell.report
  | .vector cells, .preview count head tail _ =>
    count = cells.length ∧ head = (cells.take 5).map Cell.report ∧ tail = (lastCells 5 cells).map Cell.report
  | _, _ => False

/-- Both are scalars, or both are vectors. -/
def SameKind : Payload F → Payload F → Prop
  | .vector _, .vector _ => True
  | .vector _, _ => False
  | _, .vector _ => False
  | _, _ => True

/-- The nulls are in the same places, and the numbers elsewhere are equal. -/
def SameResult : Payload F → Payload F → Prop
  | .nullScalar, .nullScalar => True
  | .scalar x, .scalar y => x = y
  | .vector cells, .vector cells' => cells.map Cell.report = cells'.map Cell.report
  | _, _ => False

/-- What is owed to a result, and to a pair of results. -/
structure ReportedFaithfully (A : Arith F) (threshold : Nat) (r r' : Payload F) : Prop where
  shown : LlmFaithful r (buildEvaluateLlmData tobytes A threshold r)
  digest : SameKind r r' → (computeResultDigest tobytes r = computeResultDigest tobytes r' ↔ SameResult r r')

/-! ## The condition -/

/-- The cells the model is shown. -/
def shownCells (threshold : Nat) (cells : List (Cell F)) : List (Cell F) :=
  if cells.length ≤ threshold then cells else cells.take 5 ++ lastCells 5 cells

/-- No null is shown. Where two series store the same numbers they have the same nulls, and where they have the same
nulls and the same numbers elsewhere, the numbers stored under the nulls are the same too. -/
def NullsStandOut (threshold : Nat) : Payload F → Payload F → Prop
  | .vector cells, r' =>
    (∀ c ∈ shownCells threshold cells, c.null = false) ∧
      ∀ cells', r' = .vector cells' →
        (cells.map Cell.value = cells'.map Cell.value ↔ cells.map Cell.report = cells'.map Cell.report)
  | _, _ => True

/-- What is assumed of the encoding: a float has eight bytes, which tell it from the others. -/
structure Lossless : Prop where
  length : ∀ x, (tobytes x).length = 8
  injective : Function.Injective tobytes

/-- The digests of two results are equal only if the same bytes are hashed. -/
def NoCollision (r r' : Payload F) : Prop :=
  sha256 (message tobytes r) = sha256 (message tobytes r') → message tobytes r = message tobytes r'

variable {tobytes}

theorem Lossless.series (h : Lossless tobytes) : Function.Injective (fun xs : List F => xs.flatMap tobytes) := by
  intro xs
  induction xs with
  | nil =>
    intro ys heq
    cases ys with
    | nil => rfl
    | cons y ys =>
      have hlength := congrArg List.length heq
      simp only [List.flatMap_nil, List.flatMap_cons, List.length_nil, List.length_append, h.length] at hlength
      omega
  | cons x xs ih =>
    intro ys heq
    cases ys with
    | nil =>
      have hlength := congrArg List.length heq
      simp only [List.flatMap_nil, List.flatMap_cons, List.length_nil, List.length_append, h.length] at hlength
      omega
    | cons y ys =>
      simp only [List.flatMap_cons] at heq
      obtain ⟨hhead, htail⟩ := List.append_inj heq (by rw [h.length, h.length])
      rw [h.injective hhead, ih htail]

theorem Lossless.ne_null (h : Lossless tobytes) (x : F) : tobytes x ≠ nullBytes := by
  intro heq
  have hlength := congrArg List.length heq
  rw [h.length] at hlength
  cases hlength

theorem NoCollision.digest_eq_iff {r r' : Payload F} (h : NoCollision tobytes r r') :
    computeResultDigest tobytes r = computeResultDigest tobytes r' ↔ message tobytes r = message tobytes r' := by
  rw [computeResultDigest_eq, computeResultDigest_eq]
  exact ⟨h, congrArg sha256⟩

variable {A : Arith F} {threshold : Nat}

theorem normalizeZero_idem (x : F) : A.normalizeZero (A.normalizeZero x) = A.normalizeZero x := by
  unfold Arith.normalizeZero
  by_cases hx : A.eq x A.zero = true
  · rw [if_pos hx, ite_self]
  · rw [if_neg hx, if_neg hx]

/-- The numbers of a result have no negative zero. -/
def Normalized (A : Arith F) (cells : List (Cell F)) : Prop := ∀ c ∈ cells, A.normalizeZero c.value = c.value

variable {cells : List (Cell F)}

theorem toNumericValue_normalized {val : EvalValue F} {warnings : List Warning}
    (h : (toNumericValue A val warnings).payload = .vector cells) : Normalized A cells := by
  unfold toNumericValue at h
  simp only at h
  split at h
  · cases h
  · cases h
  · obtain rfl := Payload.vector.inj h
    intro c hc
    obtain ⟨c₀, _, rfl⟩ := List.mem_map.mp hc
    exact normalizeZero_idem c₀.value

theorem previewValues_eq_iff (h : Normalized A cells) :
    previewValues A cells = cells.map Cell.report ↔ ∀ c ∈ cells, c.null = false := by
  unfold previewValues
  rw [List.map_inj_left]
  refine forall_congr' fun c => imp_congr_right fun hc => ?_
  rw [h c hc]
  unfold Cell.report
  cases hnull : c.null <;> simp

theorem Normalized.sublist {cells' : List (Cell F)} (h : Normalized A cells) (hsub : ∀ c ∈ cells', c ∈ cells) :
    Normalized A cells' := fun c hc => h c (hsub c hc)

theorem mem_of_mem_lastCells {count : Nat} {c : Cell F} (h : c ∈ lastCells count cells) :
    c ∈ cells := List.mem_of_mem_drop h

theorem llmFaithful_iff {cells : List (Cell F)} (h : Normalized A cells) :
    LlmFaithful (.vector cells) (buildEvaluateLlmData tobytes A threshold (.vector cells)) ↔
      ∀ c ∈ shownCells threshold cells, c.null = false := by
  unfold buildEvaluateLlmData shownCells
  by_cases hle : cells.length ≤ threshold
  · simp only [if_pos hle, LlmFaithful, true_and]
    exact previewValues_eq_iff h
  · simp only [if_neg hle, LlmFaithful, true_and]
    rw [previewValues_eq_iff (h.sublist fun c => List.mem_of_mem_take),
      previewValues_eq_iff (h.sublist fun c => mem_of_mem_lastCells), List.forall_mem_append]

theorem Lossless.message_eq_iff (h : Lossless tobytes) {cells' : List (Cell F)} :
    message tobytes (.vector cells) = message tobytes (.vector cells') ↔
      cells.map Cell.value = cells'.map Cell.value := by
  constructor
  · exact fun heq => h.series heq
  · intro heq
    show (cells.map Cell.value).flatMap tobytes = (cells'.map Cell.value).flatMap tobytes
    rw [heq]

/-- **A pair of results is reported faithfully exactly where the nulls stand out.** -/
theorem reported_iff (henc : Lossless tobytes) {r r' : Payload F} (hsha : NoCollision tobytes r r')
    (h : ∀ cells, r = .vector cells → Normalized A cells) :
    ReportedFaithfully tobytes A threshold r r' ↔ NullsStandOut threshold r r' := by
  have hdigest := hsha.digest_eq_iff
  cases r with
  | nullScalar =>
    refine iff_of_true ⟨rfl, fun hkind => hdigest.trans ?_⟩ trivial
    cases r' with
    | nullScalar => exact iff_of_true rfl trivial
    | scalar y => exact iff_of_false (fun heq => henc.ne_null y heq.symm) id
    | vector cells' => exact hkind.elim
  | scalar x =>
    refine iff_of_true ⟨rfl, fun hkind => hdigest.trans ?_⟩ trivial
    cases r' with
    | nullScalar => exact iff_of_false (henc.ne_null x) id
    | scalar y => exact henc.injective.eq_iff
    | vector cells' => exact hkind.elim
  | vector cells =>
    have hshown := @llmFaithful_iff _ tobytes _ threshold _ (h cells rfl)
    constructor
    · rintro ⟨hllm, hpair⟩
      refine ⟨hshown.mp hllm, ?_⟩
      rintro cells' rfl
      exact henc.message_eq_iff.symm.trans (hdigest.symm.trans (hpair trivial))
    · rintro ⟨hfree, hpair⟩
      refine ⟨hshown.mpr hfree, fun hkind => hdigest.trans ?_⟩
      cases r' with
      | nullScalar | scalar y => exact hkind.elim
      | vector cells' => exact henc.message_eq_iff.trans (hpair cells' rfl)

/-! ## Requests -/

theorem evaluate_normalized {P : Parser F} {limits : NumericLimits} {expression : String}
    {vars : List (String × ResolvedNumericInput F)} {options : ExpressionOptions} {r : NumericValue F}
    (h : evaluate P A limits expression vars options = .ok r) (hr : r.payload = .vector cells) :
    Normalized A cells := by
  unfold evaluate at h
  obtain ⟨_, _, h⟩ := bind_ok_iff.mp h
  obtain ⟨_, _, h⟩ := bind_ok_iff.mp h
  cases hparsed : P.parse expression with
  | error msg =>
    rw [hparsed] at h
    obtain ⟨_, hreject, _⟩ := bind_ok_iff.mp h
    cases hreject
  | ok tree =>
    rw [hparsed] at h
    obtain ⟨_, _, h⟩ := bind_ok_iff.mp h
    obtain ⟨_, _, h⟩ := bind_ok_iff.mp h
    obtain ⟨_, _, h⟩ := bind_ok_iff.mp h
    obtain ⟨⟨val, warnings⟩, _, h⟩ := bind_ok_iff.mp h
    obtain rfl := Except.ok.inj h
    exact toNumericValue_normalized hr

theorem run_normalized {S : Service F} {q : Request} {r : NumericValue F} (h : S.run q = .ok r)
    (hr : r.payload = .vector cells) : Normalized S.arith cells := by
  unfold Service.run guarded at h
  split at h
  · next value hvalue =>
      obtain rfl := Except.ok.inj h
      obtain ⟨vars, _, hevaluate⟩ := bind_ok_iff.mp hvalue
      exact evaluate_normalized hevaluate hr
  · cases h
  · cases h

/-- **Accepted requests.** The result of a request, and its digest beside that of another result, are reported
faithfully exactly where the nulls stand out. -/
theorem reportedFaithfully_iff (S : Service F) (henc : Lossless tobytes) {args : List (String × Json)}
    {r : NumericValue F} (h : S.evaluateExpression args = .ok (.ok r)) (r' : NumericValue F)
    (hsha : NoCollision tobytes r.payload r'.payload) :
    ReportedFaithfully tobytes S.arith threshold r.payload r'.payload ↔
      NullsStandOut threshold r.payload r'.payload := by
  obtain ⟨q, _, hrun⟩ := bind_ok_iff.mp h
  exact reported_iff henc hsha fun cells hr => run_normalized (Except.ok.inj hrun) hr

/-! ### Bit patterns

Numbers as the patterns of IEEE 754, for requests that compute nothing: the operations on them are left out. -/

namespace Pattern

/-- A natural number below `2 ^ 53`. -/
def ofNat (n : Nat) : UInt64 :=
  if n = 0 then 0 else UInt64.ofNat ((1023 + Nat.log2 n) * 2 ^ 52 + (n - 2 ^ Nat.log2 n) * 2 ^ (52 - Nat.log2 n))

def ofInt : Int → UInt64
  | .ofNat n => ofNat n
  | .negSucc n => ofNat (n + 1) + 2 ^ 63

/-- The exponent is not the largest. -/
def isFinite (x : UInt64) : Bool := (x.toNat / 2 ^ 52) % 2048 ≠ 2047

/-- The place of a finite number in the order; that of both zeros is 0. -/
def key (x : UInt64) : Int := if x.toNat < 2 ^ 63 then x.toNat else 2 ^ 63 - x.toNat

/-- The eight bytes, the lowest first. -/
def littleEndian (x : UInt64) : List UInt8 :=
  (List.range 8).map (fun i => UInt8.ofNat (x.toNat / 256 ^ i))

theorem mod_pow_eq_of_digits {b m n : Nat} : ∀ {k : Nat}, (∀ i < k, m / b ^ i % b = n / b ^ i % b) →
    m % b ^ k = n % b ^ k := by
  intro k
  induction k with
  | zero =>
    intro _
    rw [Nat.pow_zero, Nat.mod_one, Nat.mod_one]
  | succ k ih =>
    intro hdigit
    rw [Nat.mod_pow_succ, Nat.mod_pow_succ, hdigit k (Nat.lt_succ_self k),
      ih fun i hi => hdigit i (Nat.lt_succ_of_lt hi)]

theorem lossless : Lossless littleEndian := by
  refine ⟨fun x => rfl, ?_⟩
  intro x y heq
  have hbyte : ∀ i < 8, x.toNat / 256 ^ i % 256 = y.toNat / 256 ^ i % 256 := by
    intro i hi
    have hget := congrArg (fun bytes => (bytes.map UInt8.toNat)[i]?) heq
    simpa [littleEndian, hi] using hget
  have hmod : x.toNat % 2 ^ 64 = y.toNat % 2 ^ 64 := mod_pow_eq_of_digits (b := 256) (k := 8) hbyte
  rw [Nat.mod_eq_of_lt x.toNat_lt, Nat.mod_eq_of_lt y.toNat_lt] at hmod
  exact UInt64.toNat_inj.mp hmod

end Pattern

/-- The patterns as numbers. -/
def patterns : Arith UInt64 where
  ofInt := Pattern.ofInt
  half := 0x3fe0000000000000
  pi := 0x400921fb54442d18
  e := 0x4005bf0a8b145769
  lt x y := Pattern.key x < Pattern.key y
  le x y := Pattern.key x ≤ Pattern.key y
  eq x y := Pattern.key x = Pattern.key y
  isFinite := Pattern.isFinite
  isInteger _ := false
  toInt _ := 0
  repr x := toString x.toNat
  neg x := x
  add x _ := x
  sub x _ := x
  mul x _ := x
  div x _ := x
  mod x _ := x
  power x _ := x
  powOverflows _ _ := false
  round x _ := .ok x
  atan2 x _ := x
  degrees x := x
  fsum _ := .ok 0
  ufunc _ x := x
  npMod x _ := x
  npPower x _ := x
  npArctan2 x _ := x
  npMinimum x _ := x
  npMaximum x _ := x
  npClip x _ _ := x
  npRound x _ := x
  npIsInteger _ := false
  reduce _ _ := 0
  quantile _ _ := 0

/-- A service that reads expressions that are single names, on patterns. -/
def patternNames : Service UInt64 where
  parser := { parse := fun text => .ok (.name text), isIdentifier := fun _ => true }
  arith := patterns
  limits := {}
  toFloat
    | .int n => .ok (Pattern.ofInt n)
    | .float _ => .error .valueError
  artifactRead := false
  factSeries _ _ _ := .error
    { code := "numeric_field_not_found"
      message := fun name => s!"permission 'fact:read' required for variable '{name}'"
      path := fun name => s!"variables.{name}" }

/-- The arguments of a call for an inline series `x`, whose nulls are propagated. -/
def inlineSeries (values : List Json) : List (String × Json) :=
  [("expression", .str "x"),
   ("variables", .arr [.obj [("name", .str "x"), ("source_type", .str "inline"), ("values", .arr values)]]),
   ("options", .obj [("null_policy", .str "propagate")])]

/-- The result of that. -/
def seriesResult (cells : List (Cell UInt64)) : NumericValue UInt64 where
  payload := .vector cells
  unit := none
  warnings := []

/-- The series 1, 2 beside the series 1, 3. -/
theorem reportedFaithfully_iff_series :
    ReportedFaithfully Pattern.littleEndian patterns 1000
      (.vector [⟨Pattern.ofNat 1, false⟩, ⟨Pattern.ofNat 2, false⟩])
      (.vector [⟨Pattern.ofNat 1, false⟩, ⟨Pattern.ofNat 3, false⟩]) := by
  have h : patternNames.evaluateExpression (inlineSeries [.int 1, .int 2]) =
      .ok (.ok (seriesResult [⟨Pattern.ofNat 1, false⟩, ⟨Pattern.ofNat 2, false⟩])) := rfl
  have hsha : NoCollision Pattern.littleEndian
      (.vector [⟨Pattern.ofNat 1, false⟩, ⟨Pattern.ofNat 2, false⟩])
      (.vector [⟨Pattern.ofNat 1, false⟩, ⟨Pattern.ofNat 3, false⟩]) := by
    intro heq
    exact absurd heq (by decide +kernel)
  refine (@reportedFaithfully_iff _ _ 1000 patternNames Pattern.lossless _ _ h
    (seriesResult [⟨Pattern.ofNat 1, false⟩, ⟨Pattern.ofNat 3, false⟩]) hsha).mpr ⟨by decide, ?_⟩
  intro cells' hcells
  obtain rfl := Payload.vector.inj hcells
  exact iff_of_false (by decide) (by decide)

/-- **A null beside a zero.** The series of one null has the digest of the series of one zero. -/
theorem not_reportedFaithfully :
    ¬ ∀ (S : Service UInt64) (threshold : Nat) (args args' : List (String × Json)) (r r' : NumericValue UInt64),
      S.evaluateExpression args = .ok (.ok r) → S.evaluateExpression args' = .ok (.ok r') →
        NoCollision Pattern.littleEndian r.payload r'.payload →
          ReportedFaithfully Pattern.littleEndian S.arith threshold r.payload r'.payload := by
  intro hall
  have hnull : patternNames.evaluateExpression (inlineSeries [.null]) = .ok (.ok (seriesResult [⟨0, true⟩])) := rfl
  have hzero : patternNames.evaluateExpression (inlineSeries [.int 0]) = .ok (.ok (seriesResult [⟨0, false⟩])) := rfl
  have hreported := hall patternNames 1000 _ _ _ _ hnull hzero fun _ => rfl
  have hsame : [(none : Option UInt64)] = [some 0] := (hreported.digest trivial).mp rfl
  exact absurd hsame (by decide)

end Irip.Numeric
