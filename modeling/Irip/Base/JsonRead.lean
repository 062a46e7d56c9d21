import Irip.Base.JsonText

/-!
# `Base.JsonRead` — reading a JSON text back

`json.loads` for the texts that `json.dumps` writes for objects, strings and integers under the compact separators:
there is no blank between the tokens. Of the members of an object with the same key the last one counts.
-/

namespace Json

/-! ## Reading -/

/-- A string literal behind its opening quote: its characters, and what follows it. -/
def readText : Nat → List Char → Option (List Char × List Char)
  | 0, _ => none
  | _ + 1, [] => none
  | n + 1, c :: cs =>
    if c = '"' then some ([], cs)
    else (unescape (c :: cs)).bind (fun (d, r) => (readText n r).map (fun (ds, r) => (d :: ds, r)))

/-- An integer, and what follows it. -/
def readInt (cs : List Char) : Option (Int × List Char) :=
  let sign := cs.head? == some '-'
  let cs := if sign then cs.tail else cs
  let digits := cs.takeWhile Char.isDigit
  if digits.isEmpty then none
  else
    let n : Int := Nat.ofDigitChars 10 digits 0
    some (if sign then -n else n, cs.dropWhile Char.isDigit)

mutual

/-- A value, and what follows it. The fuel bounds the length of the text. -/
def read : Nat → List Char → Option (Json × List Char)
  | 0, _ => none
  | n + 1, cs =>
    if cs.head? = some '"' then (readText n cs.tail).map (fun (s, r) => (.str (String.ofList s), r))
    else if cs.head? = some '{' then
      if cs.tail.head? = some '}' then some (.obj [], cs.tail.tail)
      else (readMembers n cs.tail).map (fun (ms, r) => (.obj ms, r))
    else (readInt cs).map (fun (i, r) => (.int i, r))

/-- The members of an object behind its opening brace, and what follows the closing one. -/
def readMembers : Nat → List Char → Option (List (String × Json) × List Char)
  | 0, _ => none
  | n + 1, cs =>
    if cs.head? = some '"' then
      (readText n cs.tail).bind fun (k, r) =>
        if r.head? = some ':' then
          (read n r.tail).bind fun (v, r) =>
            if r.head? = some '}' then some ([(String.ofList k, v)], r.tail)
            else if r.head? = some ',' then
              (readMembers n r.tail).map fun (ms, r) =>
                (if ms.any (fun m => m.1 == String.ofList k) then ms else (String.ofList k, v) :: ms, r)
            else none
        else none
    else none

end

def loads (text : List Char) : Option Json :=
  match read (text.length + 1) text with
  | some (j, []) => some j
  | _ => none

/-! ## Written values -/

/-- A value made of objects, strings and integers. -/
inductive Written : Json → Prop
  | int (i : Int) : Written (.int i)
  | str (s : String) : Written (.str s)
  | obj (fs : List (String × Json)) (keys : (fs.map Prod.fst).Nodup) (members : ∀ m ∈ fs, Written m.2) :
      Written (.obj fs)

/-! ## Round trip -/

theorem readText_quote (s r : List Char) {n : Nat} (hn : (s.flatMap escapeChar ++ '"' :: r).length ≤ n) :
    readText n (s.flatMap escapeChar ++ '"' :: r) = some (s, r) := by
  induction s generalizing n with
  | nil =>
    cases n with
    | zero => simp at hn
    | succ n => simp [readText]
  | cons c s ih =>
    rw [List.flatMap_cons, List.append_assoc] at hn ⊢
    have hunescape := unescape_escape c (s.flatMap escapeChar ++ '"' :: r)
    have hquote := escapeChar_ne_quote c (s.flatMap escapeChar ++ '"' :: r)
    have hpos : 0 < (escapeChar c).length := by
      unfold escapeChar
      repeat' split
      all_goals simp
    cases htext : escapeChar c ++ (s.flatMap escapeChar ++ '"' :: r) with
    | nil =>
      rw [List.append_eq_nil_iff] at htext
      rw [htext.1] at hpos
      exact absurd hpos (Nat.lt_irrefl 0)
    | cons d ds =>
      rw [htext] at hunescape
      rw [List.length_append] at hn
      cases n with
      | zero => omega
      | succ n =>
        have hd : d ≠ '"' := by
          rintro rfl
          exact hquote ds htext
        have hrest := ih (n := n) (by omega)
        simp only [readText, if_neg hd, hunescape, Option.bind_some, hrest, Option.map_some]

/-- No digit follows. -/
def NoDigit (r : List Char) : Prop := ∀ c, r.head? = some c → c.isDigit = false

theorem noDigit_cons {c : Char} (h : c.isDigit = false) (r : List Char) : NoDigit (c :: r) := by
  intro d hd
  obtain rfl := Option.some.inj hd
  exact h

theorem readInt_toString (i : Int) {r : List Char} (hr : NoDigit r) :
    readInt ((toString i).toList ++ r) = some (i, r) := by
  have hdigits : ∀ n, ∀ c ∈ Nat.toDigits 10 n, c.isDigit = true := by
    intro n c hc
    exact Nat.isDigit_of_mem_toDigits (by decide) (by decide) hc
  have htake : ∀ n, (Nat.toDigits 10 n ++ r).takeWhile Char.isDigit = Nat.toDigits 10 n ∧
      (Nat.toDigits 10 n ++ r).dropWhile Char.isDigit = r := by
    intro n
    rw [List.takeWhile_append_of_pos (hdigits n), List.dropWhile_append_of_pos (hdigits n)]
    cases r with
    | nil => simp
    | cons c r =>
      have hc : ¬ c.isDigit = true := by rw [hr c rfl]; decide
      rw [List.takeWhile_cons_of_neg hc, List.dropWhile_cons_of_neg hc]
      simp
  have hvalue : ∀ n, Nat.ofDigitChars 10 (Nat.toDigits 10 n) 0 = n := fun n =>
    Nat.ofDigitChars_toDigits (by decide) (by decide)
  have hnil : ∀ n, (Nat.toDigits 10 n).isEmpty = false := by
    intro n
    rw [List.isEmpty_eq_false_iff]
    exact Nat.toDigits_ne_nil
  rw [toList_toString]
  split
  · next hpos =>
      have hsign : ((Nat.toDigits 10 i.toNat ++ r).head? == some '-') = false := by
        cases hcs : Nat.toDigits 10 i.toNat with
        | nil => exact absurd hcs Nat.toDigits_ne_nil
        | cons c cs =>
          have hc := hdigits i.toNat c (by rw [hcs]; exact List.mem_cons_self)
          have hne : c ≠ '-' := by
            rintro rfl
            exact absurd hc (by decide)
          simp [hne]
      simp only [readInt, hsign, Bool.false_eq_true, if_false, (htake _).1, (htake _).2, hnil, hvalue]
      rw [Int.toNat_of_nonneg hpos]
  · next hneg =>
      simp only [readInt, List.cons_append, List.head?_cons, beq_self_eq_true, if_true, List.tail_cons, (htake _).1,
        (htake _).2, hnil, Bool.false_eq_true, if_false, hvalue]
      rw [Int.toNat_of_nonneg (by omega), Int.neg_neg]

theorem head_toString (i : Int) (r : List Char) :
    ∃ c cs, (toString i).toList ++ r = c :: cs ∧ intChar c = true := by
  cases hcs : (toString i).toList with
  | nil => exact absurd hcs (toString_ne_nil i)
  | cons c cs => exact ⟨c, cs ++ r, rfl, intChar_of_mem (by rw [hcs]; exact List.mem_cons_self)⟩

theorem quote_append (s : String) (r : List Char) :
    quote s ++ r = '"' :: (s.toList.flatMap escapeChar ++ '"' :: r) := by
  simp [quote]

/-- **A written value is read back**, and what follows it is left. -/
theorem read_raw {j : Json} (h : Written j) {r : List Char} (hr : NoDigit r) {n : Nat} (hn : (raw j ++ r).length < n) :
    read n (raw j ++ r) = some (j, r) := by
  induction h generalizing r n with
  | int i =>
    cases n with
    | zero => exact absurd hn (Nat.not_lt_zero _)
    | succ n =>
      obtain ⟨c, cs, hcs, hc⟩ := head_toString i r
      have hread := readInt_toString i hr
      rw [raw] at hn ⊢
      rw [hcs] at hread hn ⊢
      have hquote : c ≠ '"' := by
        rintro rfl
        exact absurd hc (by decide)
      have hbrace : c ≠ '{' := by
        rintro rfl
        exact absurd hc (by decide)
      simp [read, hquote, hbrace, hread]
  | str s =>
    cases n with
    | zero => exact absurd hn (Nat.not_lt_zero _)
    | succ n =>
      rw [raw, quote_append] at hn ⊢
      rw [List.length_cons] at hn
      simp only [read, List.head?_cons, if_true, List.tail_cons, readText_quote s.toList r (by omega : _ ≤ n),
        Option.map_some, String.ofList_toList]
  | obj fs hkeys _ ih =>
    -- the members, by induction on them
    have hmembers : ∀ (ms : List (String × Json)), ms ≠ [] → (∀ m ∈ ms, m ∈ fs) → (ms.map Prod.fst).Nodup →
        ∀ n, (joinWith [','] (ms.map rawMember) ++ '}' :: r).length < n →
        readMembers n (joinWith [','] (ms.map rawMember) ++ '}' :: r) = some (ms, r) := by
      intro ms
      induction ms with
      | nil => intro h; exact absurd rfl h
      | cons m ms ihms =>
        intro _ hsub hnodup n hn
        obtain ⟨k, v⟩ := m
        cases n with
        | zero => exact absurd hn (Nat.not_lt_zero _)
        | succ n =>
          rw [List.map_cons, List.nodup_cons] at hnodup
          rw [List.map_cons, joinWith_cons, rawMember] at hn ⊢
          simp only [List.append_assoc, List.cons_append, List.nil_append, quote_append] at hn ⊢
          have hk := readText_quote k.toList
            (':' :: (raw v ++ ((ms.map rawMember).flatMap (fun y => ',' :: y) ++ '}' :: r))) (n := n)
            (by simp only [List.length_cons, List.length_append] at hn ⊢; omega)
          have hv := @ih (k, v) (hsub _ List.mem_cons_self)
          cases ms with
          | nil =>
            have hread := hv (r := '}' :: r) (n := n) (noDigit_cons (by decide) r) (by
              simp only [List.map_nil, List.flatMap_nil, List.nil_append, List.length_cons,
                List.length_append] at hn ⊢
              omega)
            simp only [List.map_nil, List.flatMap_nil, List.nil_append] at hk ⊢
            simp only [readMembers, List.head?_cons, if_true, List.tail_cons, hk, Option.bind_some, hread,
              String.ofList_toList]
          | cons m' ms =>
            rw [List.map_cons, List.flatMap_cons] at hk hn ⊢
            have htext : (',' :: rawMember m') ++ (ms.map rawMember).flatMap (fun y => ',' :: y) ++ '}' :: r
                = ',' :: (joinWith [','] ((m' :: ms).map rawMember) ++ '}' :: r) := by
              rw [List.map_cons, joinWith_cons]
              simp
            rw [htext] at hk hn ⊢
            have hread := hv (r := ',' :: (joinWith [','] ((m' :: ms).map rawMember) ++ '}' :: r)) (n := n)
              (noDigit_cons (by decide) _) (by
                simp only [List.length_cons, List.length_append] at hn ⊢
                omega)
            have hrest := ihms (List.cons_ne_nil _ _) (fun m hm => hsub m (List.mem_cons_of_mem _ hm)) hnodup.2
              n (by simp only [List.length_cons, List.length_append] at hn ⊢; omega)
            have hnew : ((m' :: ms).any fun m => m.1 == k) = false := by
              rw [List.any_eq_false]
              intro m hm heq
              exact hnodup.1 (List.mem_map.mpr ⟨m, hm, eq_of_beq heq⟩)
            simp only [readMembers, List.head?_cons, if_true, List.tail_cons, hk, Option.bind_some, hread,
              Option.some.injEq, Char.reduceEq, if_false, hrest, Option.map_some, String.ofList_toList, hnew,
              Bool.false_eq_true]
    cases n with
    | zero => exact absurd hn (Nat.not_lt_zero _)
    | succ n =>
      rw [raw, rawFields_eq] at hn ⊢
      simp only [List.cons_append, List.append_assoc, List.nil_append] at hn ⊢
      rw [List.length_cons] at hn
      cases fs with
      | nil => simp [read, joinWith]
      | cons m fs =>
        have hread := hmembers (m :: fs) (List.cons_ne_nil _ _) (fun m hm => hm) hkeys n (by omega)
        obtain ⟨cs, hcs⟩ : ∃ cs, joinWith [','] ((m :: fs).map rawMember) ++ '}' :: r = '"' :: cs := by
          rw [List.map_cons, joinWith_cons, rawMember]
          simp only [List.append_assoc, quote_append]
          exact ⟨_, rfl⟩
        rw [hcs] at hread ⊢
        simp only [read, List.head?_cons, Option.some.injEq, Char.reduceEq, if_false, if_true, List.tail_cons,
          hread, Option.map_some]

/-- **The text of a written value is read back.** -/
theorem loads_raw {j : Json} (h : Written j) : loads (raw j) = some j := by
  have hread := read_raw h (r := []) (n := (raw j).length + 1) (by intro c hc; cases hc) (by simp)
  rw [List.append_nil] at hread
  rw [loads, hread]

end Json
