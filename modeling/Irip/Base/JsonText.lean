import Irip.Base.Json

/-!
# `Base.JsonText` — the compact JSON text of a value determines it

`json.dumps(·, sort_keys=True, ensure_ascii=False, separators=(",", ":"))`, as writing in the order of the members
after all members have been sorted.
-/

namespace Json

/-! ## Text -/

mutual

/-- The value with the members of all objects in key order. -/
def sortKeys : Json → Json
  | .arr xs => .arr (sortKeysItems xs)
  | .obj fs => .obj ((sortKeysFields fs).insertionSort (fun p q => p.1 ≤ q.1))
  | .other v => sortKeys v
  | v => v

/-- `sortKeys` of every item of an array. -/
def sortKeysItems : List Json → List Json
  | [] => []
  | x :: xs => sortKeys x :: sortKeysItems xs

/-- `sortKeys` of every member of an object. -/
def sortKeysFields : List (String × Json) → List (String × Json)
  | [] => []
  | (k, v) :: fs => (k, sortKeys v) :: sortKeysFields fs

end

mutual

/-- The compact text of a value, members in the order they have. -/
def raw : Json → List Char
  | .null => "null".toList
  | .bool b => if b then "true".toList else "false".toList
  | .int i => (toString i).toList
  | .float r => r.toList
  | .str s => quote s
  | .arr xs => '[' :: joinWith [','] (rawItems xs) ++ [']']
  | .obj fs => '{' :: joinWith [','] (rawFields fs) ++ ['}']
  | .other v => raw v

/-- `raw` of every item of an array. -/
def rawItems : List Json → List (List Char)
  | [] => []
  | x :: xs => raw x :: rawItems xs

/-- `raw` of every member of an object, with its key. -/
def rawFields : List (String × Json) → List (List Char)
  | [] => []
  | (k, v) :: fs => (quote k ++ ':' :: raw v) :: rawFields fs

end

/-- `json.dumps(·, sort_keys=True, ensure_ascii=False, separators=(",", ":"))`. -/
def compact (j : Json) : List Char := raw (sortKeys j)

mutual

/-- The characters of `json.dumps(·, ensure_ascii=False)`: the members in the order they have. -/
def spaced : Json → List Char
  | .null => "null".toList
  | .bool b => if b then "true".toList else "false".toList
  | .int i => (toString i).toList
  | .float r => r.toList
  | .str s => quote s
  | .arr xs => '[' :: joinWith ", ".toList (spacedItems xs) ++ [']']
  | .obj fs => '{' :: joinWith ", ".toList (spacedFields fs) ++ ['}']
  | .other v => spaced v

/-- `spaced` of every item of an array. -/
def spacedItems : List Json → List (List Char)
  | [] => []
  | x :: xs => spaced x :: spacedItems xs

/-- `spaced` of every member of an object, with its key. -/
def spacedFields : List (String × Json) → List (List Char)
  | [] => []
  | (k, v) :: fs => (quote k ++ ": ".toList ++ spaced v) :: spacedFields fs

end

theorem sortKeysItems_eq (xs : List Json) : sortKeysItems xs = xs.map sortKeys := by
  induction xs with
  | nil => rfl
  | cons x xs ih => rw [sortKeysItems, ih, List.map_cons]

theorem sortKeysFields_eq (fs : List (String × Json)) :
    sortKeysFields fs = fs.map (fun m => (m.1, sortKeys m.2)) := by
  induction fs with
  | nil => rfl
  | cons m fs ih => rw [sortKeysFields, ih, List.map_cons]

theorem rawItems_eq (xs : List Json) : rawItems xs = xs.map raw := by
  induction xs with
  | nil => rfl
  | cons x xs ih => rw [rawItems, ih, List.map_cons]

/-- The text of a member. -/
def rawMember (m : String × Json) : List Char := quote m.1 ++ ':' :: raw m.2

theorem rawFields_eq (fs : List (String × Json)) : rawFields fs = fs.map rawMember := by
  induction fs with
  | nil => rfl
  | cons m fs ih =>
    rw [rawFields, ih, List.map_cons]
    rfl

theorem joinWith_cons (sep x : List Char) (xs : List (List Char)) :
    joinWith sep (x :: xs) = x ++ xs.flatMap (fun y => sep ++ y) := by
  induction xs generalizing x with
  | nil => simp [joinWith]
  | cons y ys ih =>
    rw [joinWith, ih]
    · simp
    · simp

/-! ## Decoded values -/

/-- The characters of a number's text. -/
def numberChar (c : Char) : Bool := c.isDigit || c ∈ ['-', '+', '.', 'e', 'N', 'a', 'I', 'n', 'f', 'i', 't', 'y']

/-- The characters of an integer's text. -/
def intChar (c : Char) : Bool := c.isDigit || c = '-'

/-- What a number's text may start with. -/
def numberHead (c : Char) : Bool := c.isDigit || c = '-' || c = 'N' || c = 'I'

/-- What `json.loads` makes of a text. The text of a float is no integer's. -/
inductive Decoded : Json → Prop
  | null : Decoded .null
  | bool (b : Bool) : Decoded (.bool b)
  | int (i : Int) : Decoded (.int i)
  | float (r : String) (chars : ∀ c ∈ r.toList, numberChar c = true) (point : ∃ c ∈ r.toList, intChar c = false)
      (head : ∃ c cs, r.toList = c :: cs ∧ numberHead c = true) : Decoded (.float r)
  | str (s : String) : Decoded (.str s)
  | arr (xs : List Json) (items : ∀ x ∈ xs, Decoded x) : Decoded (.arr xs)
  | obj (fs : List (String × Json)) (members : ∀ m ∈ fs, Decoded m.2) : Decoded (.obj fs)

variable {j k : Json} {l : List (String × Json)} {r t : List Char}

theorem Decoded.sortKeys (h : Decoded j) : Decoded (sortKeys j) := by
  induction h with
  | null => exact .null
  | bool b => exact .bool b
  | int i => exact .int i
  | float r hchars hpoint hhead => exact .float r hchars hpoint hhead
  | str s => exact .str s
  | arr xs _ ih =>
    rw [Json.sortKeys, sortKeysItems_eq]
    refine .arr _ fun x hx => ?_
    obtain ⟨y, hy, rfl⟩ := List.mem_map.mp hx
    exact ih y hy
  | obj fs _ ih =>
    rw [Json.sortKeys, sortKeysFields_eq]
    refine .obj _ fun m hm => ?_
    obtain ⟨y, hy, rfl⟩ := List.mem_map.mp ((List.perm_insertionSort _ _).mem_iff.mp hm)
    exact ih y hy

theorem mem_of_lookup {k : String} {v : Json} (h : l.lookup k = some v) : (k, v) ∈ l := by
  induction l with
  | nil => cases h
  | cons m l ih =>
    obtain ⟨k', v'⟩ := m
    rw [List.lookup_cons] at h
    split at h
    · next heq =>
        rw [Option.some.inj h, eq_of_beq heq]
        exact List.mem_cons_self
    · exact List.mem_cons_of_mem _ (ih h)

/-- `·.get(key, default)` of a decoded object. -/
def getD (fields : List (String × Json)) (key : String) (default : Json) : Json := (fields.lookup key).getD default

theorem decoded_getD (h : ∀ m ∈ l, m.2.Decoded) (key : String) {default : Json}
    (hdefault : default.Decoded) : (getD l key default).Decoded := by
  unfold getD
  cases hv : l.lookup key with
  | none => exact hdefault
  | some v => exact h _ (mem_of_lookup hv)

theorem decoded_get (h : ∀ m ∈ l, m.2.Decoded) (key : String) : (get l key).Decoded :=
  decoded_getD h key .null

/-! ### Integers -/

theorem toList_toString (i : Int) :
    (toString i).toList = if 0 ≤ i then Nat.toDigits 10 i.toNat else '-' :: Nat.toDigits 10 (-i).toNat := by
  rw [Int.toString_eq_repr, Int.repr_eq_if]
  split
  · exact Nat.toList_repr
  · rw [String.toList_append, Nat.toList_repr]
    rfl

theorem intChar_of_mem {i : Int} {c : Char} (h : c ∈ (toString i).toList) : intChar c = true := by
  have hdigits : ∀ n, c ∈ Nat.toDigits 10 n → c.isDigit = true := fun n hc =>
    Nat.isDigit_of_mem_toDigits (by decide) (by decide) hc
  unfold intChar
  rw [toList_toString] at h
  split at h
  · simp [hdigits _ h]
  · rcases List.mem_cons.mp h with rfl | h
    · rfl
    · simp [hdigits _ h]

theorem toString_ne_nil (i : Int) : (toString i).toList ≠ [] := by
  rw [toList_toString]
  split
  · exact Nat.toDigits_ne_nil
  · exact List.cons_ne_nil _ _

theorem toDigits_inj {m n : Nat} (h : Nat.toDigits 10 m = Nat.toDigits 10 n) : m = n := by
  rw [← Nat.ofDigitChars_toDigits (b := 10) (n := m) (by decide) (by decide), h,
    Nat.ofDigitChars_toDigits (by decide) (by decide)]

theorem toString_inj {i k : Int} (h : (toString i).toList = (toString k).toList) : i = k := by
  have hminus : ∀ n l, Nat.toDigits 10 n ≠ '-' :: l := by
    intro n l hl
    have hdigit : ('-' : Char).isDigit = true :=
      Nat.isDigit_of_mem_toDigits (b := 10) (n := n) (by decide) (by decide) (by rw [hl]; exact List.mem_cons_self)
    exact absurd hdigit (by decide)
  rw [toList_toString, toList_toString] at h
  split at h <;> split at h
  · have := toDigits_inj h
    omega
  · exact absurd h (hminus _ _)
  · exact absurd h.symm (hminus _ _)
  · have := toDigits_inj (List.cons.inj h).2
    omega

/-! ## Prefixes -/

/-- The value of a hexadecimal digit. -/
def hexVal (c : Char) : Nat := "0123456789abcdef".toList.idxOf c

/-- The first character of an escaped text, and what follows it. -/
def unescape : List Char → Option (Char × List Char)
  | [] => none
  | c :: r =>
    if c ≠ '\\' then some (c, r)
    else
      match r with
      | [] => none
      | e :: r =>
        if e = '"' then some ('"', r)
        else if e = '\\' then some ('\\', r)
        else if e = 'n' then some ('\n', r)
        else if e = 'r' then some ('\r', r)
        else if e = 't' then some ('\t', r)
        else if e = 'b' then some (Char.ofNat 8, r)
        else if e = 'f' then some (Char.ofNat 12, r)
        else some (Char.ofNat (hexVal (r.getD 2 '0') * 16 + hexVal (r.getD 3 '0')), r.drop 4)

theorem hexVal_hexChar : ∀ n, n < 32 → hexVal (hexChar (n / 16)) * 16 + hexVal (hexChar n) = n := by decide

theorem unescape_escape (c : Char) (r : List Char) : unescape (escapeChar c ++ r) = some (c, r) := by
  unfold escapeChar
  split
  · next h => rw [h]; rfl
  · split
    · next h => rw [h]; rfl
    · next hslash =>
        split
        · next h => rw [h]; rfl
        · split
          · next h => rw [h]; rfl
          · split
            · next h => rw [h]; rfl
            · split
              · next h =>
                  show some (Char.ofNat 8, r) = _
                  rw [← h, Char.ofNat_toNat]
              · split
                · next h =>
                    show some (Char.ofNat 12, r) = _
                    rw [← h, Char.ofNat_toNat]
                · split
                  · next h =>
                      show some (Char.ofNat (hexVal (hexChar (c.toNat / 16)) * 16 + hexVal (hexChar c.toNat)), r) = _
                      rw [hexVal_hexChar _ h, Char.ofNat_toNat]
                  · show (if c ≠ '\\' then some (c, r) else _) = _
                    rw [if_pos hslash]

/-- **An escaped character is told from what follows it.** -/
theorem escape_append_inj {c d : Char} (h : escapeChar c ++ r = escapeChar d ++ t) : c = d ∧ r = t := by
  have hsame := congrArg unescape h
  rw [unescape_escape, unescape_escape] at hsame
  exact Prod.mk.inj (Option.some.inj hsame)

theorem escapeChar_ne_quote (c : Char) (r t : List Char) : escapeChar c ++ r ≠ '"' :: t := by
  unfold escapeChar
  intro h
  split at h
  · simp at h
  · next hquote =>
      repeat' split at h
      all_goals simp at h
      exact hquote h.1

theorem flatMap_escape_inj (cs ds : List Char)
    (h : cs.flatMap escapeChar ++ '"' :: r = ds.flatMap escapeChar ++ '"' :: t) : cs = ds ∧ r = t := by
  induction cs generalizing ds with
  | nil =>
    cases ds with
    | nil => exact ⟨rfl, (List.cons.inj h).2⟩
    | cons d ds =>
      rw [List.flatMap_cons, List.append_assoc] at h
      exact absurd h.symm (escapeChar_ne_quote _ _ _)
  | cons c cs ih =>
    cases ds with
    | nil =>
      rw [List.flatMap_cons, List.append_assoc] at h
      exact absurd h (escapeChar_ne_quote _ _ _)
    | cons d ds =>
      rw [List.flatMap_cons, List.flatMap_cons, List.append_assoc, List.append_assoc] at h
      obtain ⟨rfl, hrest⟩ := escape_append_inj h
      obtain ⟨rfl, hr⟩ := ih ds hrest
      exact ⟨rfl, hr⟩

/-- **A string literal is told from what follows it.** -/
theorem quote_append_inj {s u : String} (h : quote s ++ r = quote u ++ t) : s = u ∧ r = t := by
  unfold quote at h
  simp only [List.cons_append, List.append_assoc, List.cons.injEq, true_and, List.nil_append] at h
  obtain ⟨hs, hr⟩ := flatMap_escape_inj _ _ h
  exact ⟨String.toList_inj.mp hs, hr⟩

/-- What may follow a value: the end of the text, or of an array or an object, or a further item. -/
def Stops (r : List Char) : Prop := ∀ c, r.head? = some c → numberChar c = false

theorem stops_nil : Stops [] := by
  intro c h
  cases h

theorem stops_cons {c : Char} (h : numberChar c = false) (r : List Char) : Stops (c :: r) := by
  intro d hd
  obtain rfl := Option.some.inj hd
  exact h

theorem number_append_inj {x y : List Char} (hx : ∀ c ∈ x, numberChar c = true)
    (hy : ∀ c ∈ y, numberChar c = true) (hr : Stops r) (ht : Stops t) (h : x ++ r = y ++ t) : x = y ∧ r = t := by
  have htake : ∀ {z s : List Char}, (∀ c ∈ z, numberChar c = true) → Stops s → (z ++ s).takeWhile numberChar = z := by
    intro z s hz hs
    rw [List.takeWhile_append_of_pos hz]
    cases s with
    | nil => simp
    | cons c s => rw [List.takeWhile_cons_of_neg (by rw [hs c rfl]; exact Bool.false_ne_true), List.append_nil]
  have hsame : x = y := by rw [← htake hx hr, h, htake hy ht]
  subst hsame
  exact ⟨rfl, List.append_cancel_left h⟩

/-- **Items between separators are told from what follows the end**, where each is told from what follows it. -/
theorem join_append_inj {α : Type} {f : α → List Char} {close : Char} {xs ys : List α}
    (hcomma : numberChar ',' = false) (hclose : numberChar close = false) (hsep : close ≠ ',')
    (hhead : ∀ y ∈ xs ++ ys, (f y).head? ≠ some close ∧ f y ≠ [])
    (hinj : ∀ x ∈ xs, ∀ y ∈ ys, ∀ r t, Stops r → Stops t → f x ++ r = f y ++ t → x = y ∧ r = t)
    (h : joinWith [','] (xs.map f) ++ close :: r = joinWith [','] (ys.map f) ++ close :: t) : xs = ys ∧ r = t := by
  have hstops : ∀ (zs : List α) (s : List Char),
      Stops ((zs.map f).flatMap (fun y => [','] ++ y) ++ close :: s) := by
    intro zs s
    cases zs with
    | nil => exact stops_cons hclose s
    | cons z zs => exact stops_cons hcomma _
  -- an item is not the end
  have hends : ∀ {y u v}, y ∈ xs ++ ys → close :: u ≠ f y ++ v := by
    intro y u v hy heq
    obtain ⟨hfirst, hne⟩ := hhead y hy
    obtain ⟨c, cs, hc⟩ := List.exists_cons_of_ne_nil hne
    rw [hc] at heq hfirst
    exact hfirst (congrArg some (List.cons.inj heq).1.symm)
  -- after the first item, every item stands behind a separator
  have hmore : ∀ (xs ys : List α), (∀ x ∈ xs, ∀ y ∈ ys, ∀ r t, Stops r → Stops t → f x ++ r = f y ++ t → x = y ∧ r = t) →
      (xs.map f).flatMap (fun y => [','] ++ y) ++ close :: r = (ys.map f).flatMap (fun y => [','] ++ y) ++ close :: t →
      xs = ys ∧ r = t := by
    intro xs
    induction xs with
    | nil =>
      intro ys _ h
      cases ys with
      | nil => exact ⟨rfl, (List.cons.inj h).2⟩
      | cons y ys => exact absurd (List.cons.inj h).1 hsep
    | cons x xs ih =>
      intro ys hinj h
      cases ys with
      | nil => exact absurd (List.cons.inj h).1.symm hsep
      | cons y ys =>
        simp only [List.map_cons, List.flatMap_cons, List.cons_append, List.nil_append, List.append_assoc,
          List.cons.injEq, true_and] at h
        obtain ⟨rfl, hrest⟩ := hinj x List.mem_cons_self y List.mem_cons_self _ _ (hstops xs r) (hstops ys t) h
        obtain ⟨rfl, hr⟩ := ih ys
          (fun x hx y hy => hinj x (List.mem_cons_of_mem _ hx) y (List.mem_cons_of_mem _ hy)) hrest
        exact ⟨rfl, hr⟩
  cases xs with
  | nil =>
    cases ys with
    | nil => exact ⟨rfl, (List.cons.inj h).2⟩
    | cons y ys =>
      rw [List.map_cons, joinWith_cons, List.append_assoc] at h
      exact absurd h (hends (List.mem_append_right _ List.mem_cons_self))
  | cons x xs =>
    cases ys with
    | nil =>
      rw [List.map_cons, joinWith_cons, List.append_assoc] at h
      exact absurd h.symm (hends (List.mem_append_left _ List.mem_cons_self))
    | cons y ys =>
      rw [List.map_cons, List.map_cons, joinWith_cons, joinWith_cons, List.append_assoc, List.append_assoc] at h
      obtain ⟨rfl, hrest⟩ := hinj x List.mem_cons_self y List.mem_cons_self _ _ (hstops xs r) (hstops ys t) h
      obtain ⟨rfl, hr⟩ := hmore xs ys
        (fun x hx y hy => hinj x (List.mem_cons_of_mem _ hx) y (List.mem_cons_of_mem _ hy)) hrest
      exact ⟨rfl, hr⟩

/-- The kind of a value that a text starts with. -/
def kindOfChar (c : Char) : Nat :=
  if c = 'n' then 0 else if c = 't' || c = 'f' then 1 else if c = '"' then 2 else if c = '[' then 3
  else if c = '\x7b' then 4 else if numberHead c then 5 else 6

/-- The kind of a value. -/
def kind : Json → Nat
  | .null => 0
  | .bool _ => 1
  | .str _ => 2
  | .arr _ => 3
  | .obj _ => 4
  | .int _ => 5
  | .float _ => 5
  | .other _ => 6

theorem kindOfChar_numberHead {c : Char} (h : numberHead c = true) : kindOfChar c = 5 := by
  have hne : ∀ d, numberHead d = false → c ≠ d := by
    rintro d hd rfl
    rw [hd] at h
    cases h
  unfold kindOfChar
  simp [hne 'n' (by decide), hne 't' (by decide), hne 'f' (by decide), hne '"' (by decide), hne '[' (by decide),
    hne '\x7b' (by decide), h]

/-- **A text starts with a character of its value's kind.** -/
theorem raw_head (h : Decoded j) : ∃ c cs, raw j = c :: cs ∧ kindOfChar c = kind j := by
  cases h with
  | null => exact ⟨'n', _, rfl, by decide⟩
  | bool b =>
    cases b with
    | true => exact ⟨'t', _, rfl, by decide⟩
    | false => exact ⟨'f', _, rfl, by decide⟩
  | int i =>
    obtain ⟨c, cs, hc⟩ := List.exists_cons_of_ne_nil (toString_ne_nil i)
    have hint : intChar c = true := intChar_of_mem (i := i) (by rw [hc]; exact List.mem_cons_self)
    have hhead : numberHead c = true := by
      unfold numberHead
      rw [show (c.isDigit || decide (c = '-')) = true from hint]
      rfl
    exact ⟨c, cs, hc, kindOfChar_numberHead hhead⟩
  | float r _ _ hhead =>
    obtain ⟨c, cs, hc, hnumber⟩ := hhead
    exact ⟨c, cs, hc, kindOfChar_numberHead hnumber⟩
  | str s => exact ⟨'"', _, rfl, rfl⟩
  | arr xs _ => exact ⟨'[', _, rfl, rfl⟩
  | obj fs _ => exact ⟨'\x7b', _, rfl, rfl⟩

theorem Decoded.kind_lt (h : Decoded j) : kind j < 6 := by
  cases h <;> simp [kind]

theorem kind_of_append (hj : Decoded j) (hk : Decoded k) (h : raw j ++ r = raw k ++ t) : kind j = kind k := by
  obtain ⟨c, cs, hc, hcj⟩ := raw_head hj
  obtain ⟨d, ds, hd, hdk⟩ := raw_head hk
  rw [hc, hd] at h
  rw [← hcj, ← hdk, (List.cons.inj h).1]

theorem raw_ne_close (h : Decoded j) : (raw j).head? ≠ some ']' ∧ raw j ≠ [] := by
  obtain ⟨c, cs, hc, hcj⟩ := raw_head h
  rw [hc]
  refine ⟨fun hclose => ?_, List.cons_ne_nil _ _⟩
  have hlt := h.kind_lt
  rw [← hcj, Option.some.inj hclose] at hlt
  exact absurd hlt (by decide)

theorem numberChar_of_intChar {c : Char} (h : intChar c = true) : numberChar c = true := by
  unfold intChar at h
  unfold numberChar
  rcases Bool.or_eq_true_iff.mp h with hd | hm
  · rw [hd]
    rfl
  · rw [of_decide_eq_true hm]
    decide

/-- **A text determines the value it starts with, and where it ends.** -/
theorem raw_append_inj (hj : Decoded j) (hk : Decoded k) (hr : Stops r) (ht : Stops t)
    (h : raw j ++ r = raw k ++ t) : j = k ∧ r = t := by
  have hkind := kind_of_append hj hk h
  induction hj generalizing k r t with
  | null =>
    cases hk with
    | null => exact ⟨rfl, List.append_cancel_left h⟩
    | _ => exact absurd hkind (by simp [kind])
  | bool b =>
    cases hk with
    | bool b' =>
      cases b <;> cases b'
      · exact ⟨rfl, List.append_cancel_left h⟩
      · exact absurd (List.cons.inj h).1 (by decide)
      · exact absurd (List.cons.inj h).1 (by decide)
      · exact ⟨rfl, List.append_cancel_left h⟩
    | _ => exact absurd hkind (by simp [kind])
  | str s =>
    cases hk with
    | str u =>
      obtain ⟨rfl, hrest⟩ := quote_append_inj h
      exact ⟨rfl, hrest⟩
    | _ => exact absurd hkind (by simp [kind])
  | int i =>
    have hi : ∀ c ∈ (toString i).toList, numberChar c = true := fun c hc =>
      numberChar_of_intChar (intChar_of_mem hc)
    cases hk with
    | int i' =>
      obtain ⟨htext, hrest⟩ := number_append_inj hi
        (fun c hc => numberChar_of_intChar (intChar_of_mem hc)) hr ht h
      exact ⟨congrArg Json.int (toString_inj htext), hrest⟩
    | float x hchars hpoint _ =>
      obtain ⟨htext, _⟩ := number_append_inj hi hchars hr ht h
      obtain ⟨c, hc, hno⟩ := hpoint
      rw [← htext] at hc
      rw [intChar_of_mem hc] at hno
      cases hno
    | _ => exact absurd hkind (by simp [kind])
  | float x hchars hpoint _ =>
    cases hk with
    | int i =>
      obtain ⟨htext, _⟩ := number_append_inj hchars
        (fun c hc => numberChar_of_intChar (intChar_of_mem (i := i) hc)) hr ht h
      obtain ⟨c, hc, hno⟩ := hpoint
      rw [htext] at hc
      rw [intChar_of_mem hc] at hno
      cases hno
    | float y hchars' _ _ =>
      obtain ⟨htext, hrest⟩ := number_append_inj hchars hchars' hr ht h
      exact ⟨congrArg Json.float (String.toList_inj.mp htext), hrest⟩
    | _ => exact absurd hkind (by simp [kind])
  | arr xs items ih =>
    cases hk with
    | arr ys items' =>
      have h' : joinWith [','] (xs.map raw) ++ ']' :: r = joinWith [','] (ys.map raw) ++ ']' :: t := by
        simpa [raw, rawItems_eq] using h
      have hhead : ∀ y ∈ xs ++ ys, (raw y).head? ≠ some ']' ∧ raw y ≠ [] := by
        intro y hy
        exact raw_ne_close ((List.mem_append.mp hy).elim (items y) (items' y))
      obtain ⟨rfl, hrest⟩ := join_append_inj (by decide) (by decide) (by decide) hhead
        (fun x hx y hy r t hr ht hxy =>
          ih x hx (items' y hy) hr ht hxy (kind_of_append (items x hx) (items' y hy) hxy)) h'
      exact ⟨rfl, hrest⟩
    | _ => exact absurd hkind (by simp [kind])
  | obj fs members ih =>
    cases hk with
    | obj gs members' =>
      have h' : joinWith [','] (fs.map rawMember) ++ '\x7d' :: r
          = joinWith [','] (gs.map rawMember) ++ '\x7d' :: t := by
        simpa [raw, rawFields_eq] using h
      have hhead : ∀ m ∈ fs ++ gs, (rawMember m).head? ≠ some '\x7d' ∧ rawMember m ≠ [] := by
        intro m _
        refine ⟨?_, List.cons_ne_nil _ _⟩
        show some '"' ≠ some '\x7d'
        decide
      -- the key first, the value behind a colon
      have hinj : ∀ m ∈ fs, ∀ n ∈ gs, ∀ r t, Stops r → Stops t → rawMember m ++ r = rawMember n ++ t →
          m = n ∧ r = t := by
        intro m hm n hn r t hr ht hmn
        have hmn' : quote m.1 ++ (':' :: (raw m.2 ++ r)) = quote n.1 ++ (':' :: (raw n.2 ++ t)) := by
          simpa [rawMember] using hmn
        obtain ⟨hkey, hvalue⟩ := quote_append_inj hmn'
        have hvalue' := (List.cons.inj hvalue).2
        obtain ⟨hsame, hrest⟩ := ih m hm (members' n hn) hr ht hvalue'
          (kind_of_append (members m hm) (members' n hn) hvalue')
        exact ⟨Prod.ext hkey hsame, hrest⟩
      obtain ⟨rfl, hrest⟩ := join_append_inj (by decide) (by decide) (by decide) hhead hinj h'
      exact ⟨rfl, hrest⟩
    | _ => exact absurd hkind (by simp [kind])

/-! ## Injectivity -/

theorem raw_inj (hj : Decoded j) (hk : Decoded k) (h : raw j = raw k) : j = k := by
  refine (raw_append_inj hj hk stops_nil stops_nil ?_).1
  rw [h]

/-- **The compact text determines a decoded value**, up to the order of the members of its objects. -/
theorem compact_inj (hj : Decoded j) (hk : Decoded k) : compact j = compact k ↔ sortKeys j = sortKeys k :=
  ⟨fun h => raw_inj hj.sortKeys hk.sortKeys h, fun h => congrArg raw h⟩

/-- Members are written in key order, without blanks. -/
example : compact (obj [("b", .int (-12)), ("a", .arr [.null, .str "x\n"])])
    = "\x7b\"a\":[null,\"x\\n\"],\"b\":-12\x7d".toList := by decide

end Json
