import Irip.Base.Json

/-!
# `Audit.Redaction` — the redaction of audit payloads

A list in a list stays as it is, so two runs agree exactly if no such list holds a sensitive field.
-/

namespace Irip.Audit

/-! ## Names -/

def redactedFields : List String := ["password", "token", "secret", "api_key", "refresh_token", "access_token"]

def redactedValue : String := "[REDACTED]"

/-- What `lower` makes of a character, as far as it is an ASCII letter: the Kelvin sign comes to one as well. -/
def lowerChar (c : Char) : Char := if c.toNat = 0x212a then 'k' else c.toLower

/-- `key.lower() in _REDACTED_FIELDS`. -/
def sensitive (key : String) : Bool := redactedFields.contains (String.ofList (key.toList.map lowerChar))

/-! ## Redaction -/

mutual

def redact : List (String × Json) → List (String × Json)
  | [] => []
  | (key, value) :: payload => (key, if sensitive key then .str redactedValue else redactValue value) :: redact payload

/-- The value of a field that is not sensitive. -/
def redactValue : Json → Json
  | .obj payload => .obj (redact payload)
  | .arr items => .arr (redactItems items)
  | value => value

def redactItems : List Json → List Json
  | [] => []
  | item :: items => redactItem item :: redactItems items

/-- `redact(item) if isinstance(item, dict) else item`. -/
def redactItem : Json → Json
  | .obj payload => .obj (redact payload)
  | item => item

end

/-! ## Two payloads -/

mutual

/-- The value with `a` under every sensitive name, at any depth. -/
def mask (a : Json) : Json → Json
  | .obj fs => .obj (maskFields a fs)
  | .arr xs => .arr (maskItems a xs)
  | v => v

def maskFields (a : Json) : List (String × Json) → List (String × Json)
  | [] => []
  | (k, v) :: fs => (k, if sensitive k then a else mask a v) :: maskFields a fs

def maskItems (a : Json) : List Json → List Json
  | [] => []
  | x :: xs => mask a x :: maskItems a xs

end

/-- The payloads differ only in values under sensitive names. -/
def Alike (p q : List (String × Json)) : Prop := maskFields .null p = maskFields .null q

/-- Payloads that are alike are redacted alike, and no other value is changed. -/
structure Noninterfering (p : List (String × Json)) : Prop where
  equal : ∀ q, Alike p q → redact p = redact q
  unchanged : Alike (redact p) p

mutual

/-- No field is sensitive, at any depth. -/
def Clean : Json → Prop
  | .obj fs => CleanFields fs
  | .arr xs => CleanItems xs
  | _ => True

def CleanFields : List (String × Json) → Prop
  | [] => True
  | (k, v) :: fs => sensitive k = false ∧ Clean v ∧ CleanFields fs

def CleanItems : List Json → Prop
  | [] => True
  | x :: xs => Clean x ∧ CleanItems xs

end

mutual

/-- Outside the values of sensitive fields, no list in a list holds a sensitive field. -/
def Reached : List (String × Json) → Prop
  | [] => True
  | (k, v) :: fs => (sensitive k = true ∨ ReachedValue v) ∧ Reached fs

def ReachedValue : Json → Prop
  | .obj fs => Reached fs
  | .arr xs => ReachedItems xs
  | _ => True

def ReachedItems : List Json → Prop
  | [] => True
  | x :: xs => ReachedItem x ∧ ReachedItems xs

def ReachedItem : Json → Prop
  | .obj fs => Reached fs
  | x => Clean x

end

/-! ### Masks -/

mutual

theorem mask_mask (a b : Json) : ∀ v, mask a (mask b v) = mask a v
  | .obj fs => congrArg Json.obj (maskFields_mask a b fs)
  | .arr xs => congrArg Json.arr (maskItems_mask a b xs)
  | .null | .bool _ | .int _ | .float _ | .str _ | .other _ => rfl

theorem maskFields_mask (a b : Json) : ∀ fs, maskFields a (maskFields b fs) = maskFields a fs
  | [] => rfl
  | (k, v) :: fs => by
    show (k, _) :: maskFields a (maskFields b fs) = (k, _) :: maskFields a fs
    rw [maskFields_mask a b fs]
    by_cases hk : sensitive k = true
    · simp only [if_pos hk]
    · simp only [if_neg hk, mask_mask a b v]

theorem maskItems_mask (a b : Json) : ∀ xs, maskItems a (maskItems b xs) = maskItems a xs
  | [] => rfl
  | x :: xs => congrArg₂ List.cons (mask_mask a b x) (maskItems_mask a b xs)

end

mutual

theorem mask_redact (a : Json) : ∀ fs, maskFields a (redact fs) = maskFields a fs
  | [] => rfl
  | (k, v) :: fs => by
    show (k, _) :: maskFields a (redact fs) = (k, _) :: maskFields a fs
    rw [mask_redact a fs]
    by_cases hk : sensitive k = true
    · simp only [if_pos hk]
    · simp only [if_neg hk, mask_redactValue a v]

theorem mask_redactValue (a : Json) : ∀ v, mask a (redactValue v) = mask a v
  | .obj fs => congrArg Json.obj (mask_redact a fs)
  | .arr xs => congrArg Json.arr (mask_redactItems a xs)
  | .null | .bool _ | .int _ | .float _ | .str _ | .other _ => rfl

theorem mask_redactItems (a : Json) : ∀ xs, maskItems a (redactItems xs) = maskItems a xs
  | [] => rfl
  | x :: xs => congrArg₂ List.cons (mask_redactItem a x) (mask_redactItems a xs)

theorem mask_redactItem (a : Json) : ∀ x, mask a (redactItem x) = mask a x
  | .obj fs => congrArg Json.obj (mask_redact a fs)
  | .arr _ | .null | .bool _ | .int _ | .float _ | .str _ | .other _ => rfl

end

mutual

theorem mask_eq_iff {a b : Json} (hab : a ≠ b) : ∀ v, mask a v = mask b v ↔ Clean v
  | .obj fs => by
    rw [Clean, ← maskFields_eq_iff hab fs]
    exact ⟨Json.obj.inj, congrArg Json.obj⟩
  | .arr xs => by
    rw [Clean, ← maskItems_eq_iff hab xs]
    exact ⟨Json.arr.inj, congrArg Json.arr⟩
  | .null | .bool _ | .int _ | .float _ | .str _ | .other _ => ⟨fun _ => trivial, fun _ => rfl⟩

theorem maskFields_eq_iff {a b : Json} (hab : a ≠ b) : ∀ fs, maskFields a fs = maskFields b fs ↔ CleanFields fs
  | [] => ⟨fun _ => trivial, fun _ => rfl⟩
  | (k, v) :: fs => by
    rw [maskFields, maskFields, CleanFields, List.cons.injEq, Prod.mk.injEq, maskFields_eq_iff hab fs]
    cases hk : sensitive k with
    | true => simp [hab]
    | false => simp [mask_eq_iff hab v]

theorem maskItems_eq_iff {a b : Json} (hab : a ≠ b) : ∀ xs, maskItems a xs = maskItems b xs ↔ CleanItems xs
  | [] => ⟨fun _ => trivial, fun _ => rfl⟩
  | x :: xs => by
    rw [maskItems, maskItems, CleanItems, List.cons.injEq, mask_eq_iff hab x, maskItems_eq_iff hab xs]

end

mutual

theorem redact_mask_iff {a b : Json} (hab : a ≠ b) : ∀ fs, redact (maskFields a fs) = redact (maskFields b fs) ↔ Reached fs
  | [] => ⟨fun _ => trivial, fun _ => rfl⟩
  | (k, v) :: fs => by
    rw [maskFields, maskFields, redact, redact, Reached, List.cons.injEq, Prod.mk.injEq, redact_mask_iff hab fs]
    cases hk : sensitive k with
    | true => simp
    | false => simp [redactValue_mask_iff hab v]

theorem redactValue_mask_iff {a b : Json} (hab : a ≠ b) :
    ∀ v, redactValue (mask a v) = redactValue (mask b v) ↔ ReachedValue v
  | .obj fs => by
    rw [ReachedValue, ← redact_mask_iff hab fs]
    exact ⟨Json.obj.inj, congrArg Json.obj⟩
  | .arr xs => by
    rw [ReachedValue, ← redactItems_mask_iff hab xs]
    exact ⟨Json.arr.inj, congrArg Json.arr⟩
  | .null | .bool _ | .int _ | .float _ | .str _ | .other _ => ⟨fun _ => trivial, fun _ => rfl⟩

theorem redactItems_mask_iff {a b : Json} (hab : a ≠ b) :
    ∀ xs, redactItems (maskItems a xs) = redactItems (maskItems b xs) ↔ ReachedItems xs
  | [] => ⟨fun _ => trivial, fun _ => rfl⟩
  | x :: xs => by
    rw [maskItems, maskItems, redactItems, redactItems, ReachedItems, List.cons.injEq, redactItem_mask_iff hab x,
      redactItems_mask_iff hab xs]

theorem redactItem_mask_iff {a b : Json} (hab : a ≠ b) :
    ∀ x, redactItem (mask a x) = redactItem (mask b x) ↔ ReachedItem x
  | .obj fs => by
    rw [ReachedItem, ← redact_mask_iff hab fs]
    exact ⟨Json.obj.inj, congrArg Json.obj⟩
  -- a list in a list is not descended into
  | .arr xs => mask_eq_iff hab (.arr xs)
  | .null | .bool _ | .int _ | .float _ | .str _ | .other _ => ⟨fun _ => trivial, fun _ => rfl⟩

end

mutual

theorem Clean.mask (a : Json) : ∀ v, Clean v → mask a v = v
  | .obj fs, h => congrArg Json.obj (CleanFields.mask a fs h)
  | .arr xs, h => congrArg Json.arr (CleanItems.mask a xs h)
  | .null, _ | .bool _, _ | .int _, _ | .float _, _ | .str _, _ | .other _, _ => rfl

theorem CleanFields.mask (a : Json) : ∀ fs, CleanFields fs → maskFields a fs = fs
  | [], _ => rfl
  | (k, v) :: fs, ⟨hk, hv, hfs⟩ => by simp [maskFields, hk, Clean.mask a v hv, CleanFields.mask a fs hfs]

theorem CleanItems.mask (a : Json) : ∀ xs, CleanItems xs → maskItems a xs = xs
  | [], _ => rfl
  | x :: xs, ⟨hx, hxs⟩ => congrArg₂ List.cons (Clean.mask a x hx) (CleanItems.mask a xs hxs)

end

mutual

/-- What is under a sensitive name is not seen after redaction, where redaction reaches it. -/
theorem Reached.redact_mask (a : Json) : ∀ fs, Reached fs → redact (maskFields a fs) = redact fs
  | [], _ => rfl
  | (k, v) :: fs, ⟨hv, hfs⟩ => by
    rw [maskFields, redact, redact, Reached.redact_mask a fs hfs]
    cases hk : sensitive k with
    | true => rfl
    | false =>
      have := ReachedValue.redact_mask a v (hv.resolve_left (by simp [hk]))
      simp [this]

theorem ReachedValue.redact_mask (a : Json) : ∀ v, ReachedValue v → redactValue (mask a v) = redactValue v
  | .obj fs, h => congrArg Json.obj (Reached.redact_mask a fs h)
  | .arr xs, h => congrArg Json.arr (ReachedItems.redact_mask a xs h)
  | .null, _ | .bool _, _ | .int _, _ | .float _, _ | .str _, _ | .other _, _ => rfl

theorem ReachedItems.redact_mask (a : Json) : ∀ xs, ReachedItems xs → redactItems (maskItems a xs) = redactItems xs
  | [], _ => rfl
  | x :: xs, ⟨hx, hxs⟩ => congrArg₂ List.cons (ReachedItem.redact_mask a x hx) (ReachedItems.redact_mask a xs hxs)

theorem ReachedItem.redact_mask (a : Json) : ∀ x, ReachedItem x → redactItem (mask a x) = redactItem x
  | .obj fs, h => congrArg Json.obj (Reached.redact_mask a fs h)
  | .arr xs, h => Clean.mask a (.arr xs) h
  | .null, _ | .bool _, _ | .int _, _ | .float _, _ | .str _, _ | .other _, _ => rfl

end

/-! ## Result -/

theorem alike_mask (a : Json) (p : List (String × Json)) : Alike (maskFields a p) p := maskFields_mask .null a p

theorem Alike.mask_eq {p q : List (String × Json)} (h : Alike p q) (a : Json) : maskFields a p = maskFields a q := by
  rw [← maskFields_mask a .null p, ← maskFields_mask a .null q]
  exact congrArg (maskFields a) h

/-- **Redaction is noninterfering** exactly if no list in a list holds a sensitive field. -/
theorem noninterfering_iff (p : List (String × Json)) : Noninterfering p ↔ Reached p := by
  have hne : Json.null ≠ .bool true := fun h => by cases h
  constructor
  · intro h
    refine (redact_mask_iff hne p).mp ?_
    rw [← h.equal _ (alike_mask .null p).symm, ← h.equal _ (alike_mask (.bool true) p).symm]
  · intro h
    refine ⟨fun q hq => ?_, mask_redact .null p⟩
    have hreach : Reached q := by
      rw [← redact_mask_iff hne, ← hq.mask_eq, ← hq.mask_eq]
      exact (redact_mask_iff hne p).mpr h
    calc redact p = redact (maskFields .null p) := (h.redact_mask .null p).symm
      _ = redact (maskFields .null q) := by rw [hq.mask_eq]
      _ = redact q := hreach.redact_mask .null q

/-- A password in a list in a list, which is not descended into. -/
def nested (password : String) : List (String × Json) := [("k", .arr [.arr [.obj [("password", .str password)]]])]

/-- Two payloads that differ in their password only, and are not redacted alike. -/
theorem nested_interferes : Alike (nested "a") (nested "b") ∧ redact (nested "a") ≠ redact (nested "b") := by
  refine ⟨rfl, fun h => ?_⟩
  have hsame : nested "a" = nested "b" := h
  unfold nested at hsame
  simp at hsame

end Irip.Audit
