import Irip.Jobs.Dispatcher

/-!
# `Jobs.Identity` — the text of an identity reads back as the identity

A producer writes `str(id)` into the payload of its event, and the dispatcher reads it with `UUID(str(·))`, which
takes several other spellings too. Of all its preparations none touches a text that `str` has written.
-/

namespace Irip.Jobs

/-! ## Digits -/

theorem hexDigit?_hexChar (n : Nat) : hexDigit? (Json.hexChar n) = some (n % 16) := by
  have hall : ∀ k < 16, hexDigit? ("0123456789abcdef".toList.getD k '0') = some k := by decide
  exact hall (n % 16) (Nat.mod_lt n (by decide))

/-- The characters a digit is not: those the preparations of `parseUuid` look for. -/
theorem hexChar_plain (n : Nat) : Json.hexChar n ≠ 'u' ∧ Json.hexChar n ≠ '-' ∧ Json.hexChar n ≠ '+' ∧
    Json.hexChar n ≠ '_' ∧ Json.hexChar n ≠ 'x' ∧ Json.hexChar n ≠ 'X' ∧
    ((Json.hexChar n).toNat = 0x7b || (Json.hexChar n).toNat = 0x7d) = false ∧ isSpace (Json.hexChar n) = false := by
  have hall : ∀ k < 16, ∀ c, c = "0123456789abcdef".toList.getD k '0' → c ≠ 'u' ∧ c ≠ '-' ∧ c ≠ '+' ∧ c ≠ '_' ∧
      c ≠ 'x' ∧ c ≠ 'X' ∧ (c.toNat = 0x7b || c.toNat = 0x7d) = false ∧ isSpace c = false := by
    intro k hk c hc
    subst hc
    revert k
    decide
  exact hall (n % 16) (Nat.mod_lt n (by decide)) _ rfl

theorem removeAll_of_not_mem {p : Char} {ps cs : List Char} (h : p ∉ cs) : removeAll (p :: ps) 0 cs = cs := by
  induction cs with
  | nil => rfl
  | cons c cs ih =>
    rw [List.mem_cons, not_or] at h
    have hhead : (p :: ps).isPrefixOf (c :: cs) = false := by
      simp [List.isPrefixOf, h.1]
    rw [removeAll, hhead, ih h.2]
    rfl

theorem strip_of_forall {p : Char → Bool} {cs : List Char} (h : ∀ c ∈ cs, p c = false) :
    ((cs.dropWhile p).reverse.dropWhile p).reverse = cs := by
  have hdrop : ∀ l : List Char, (∀ c ∈ l, p c = false) → l.dropWhile p = l := by
    intro l hl
    cases l with
    | nil => rfl
    | cons c l =>
      rw [List.dropWhile_cons_of_neg]
      rw [hl c List.mem_cons_self]
      decide
  rw [hdrop cs h, hdrop cs.reverse (fun c hc => h c (List.mem_reverse.mp hc)), List.reverse_reverse]

theorem hexDigits_map (ks : List Nat) (acc : Nat) (afterDigit : Bool) (h : ks ≠ [] ∨ afterDigit = true) :
    hexDigits acc afterDigit (ks.map Json.hexChar) = some (ks.foldl (fun v k => v * 16 + k % 16) acc) := by
  induction ks generalizing acc afterDigit with
  | nil =>
    rcases h with h | h
    · exact absurd rfl h
    · simp [hexDigits, h]
  | cons k ks ih =>
    have hplain : Json.hexChar k ≠ '_' := (hexChar_plain k).2.2.2.1
    rw [List.map_cons, hexDigits, if_neg hplain, hexDigit?_hexChar]
    exact ih _ true (.inr rfl)

theorem parseHex_map (ks : List Nat) :
    parseHex (ks.map Json.hexChar) = hexDigits 0 false (ks.map Json.hexChar) := by
  have hspace : ∀ c ∈ ks.map Json.hexChar, isSpace c = false := by
    intro c hc
    obtain ⟨k, -, rfl⟩ := List.mem_map.mp hc
    exact (hexChar_plain k).2.2.2.2.2.2.2
  unfold parseHex
  rw [strip_of_forall hspace]
  have hplus : ∀ c ∈ ks.map Json.hexChar, c ≠ '+' ∧ c ≠ '_' ∧ c ≠ 'x' ∧ c ≠ 'X' := by
    intro c hc
    obtain ⟨k, -, rfl⟩ := List.mem_map.mp hc
    obtain ⟨-, -, h₁, h₂, h₃, h₄, -⟩ := hexChar_plain k
    exact ⟨h₁, h₂, h₃, h₄⟩
  generalize ks.map Json.hexChar = cs at hplus
  clear hspace
  dsimp only
  split
  · next heq =>
      split at heq
      · exact absurd rfl (hplus '+' List.mem_cons_self).1
      · subst heq
        exact absurd rfl (hplus '_' (by simp)).2.1
  · next x _ _ heq =>
      split at heq
      · exact absurd rfl (hplus '+' List.mem_cons_self).1
      · subst heq
        obtain ⟨-, -, h₁, h₂⟩ := hplus x (by simp)
        rw [if_neg (by simp [h₁, h₂])]
  · split
    · exact absurd rfl (hplus '+' List.mem_cons_self).1
    · rfl

/-! ## Identities -/

theorem foldl_digits (m n : Nat) :
    ((List.range m).map (fun k => n / 16 ^ (m - 1 - k))).foldl (fun v k => v * 16 + k % 16) 0 = n % 16 ^ m := by
  induction m generalizing n with
  | zero => simp [Nat.mod_one]
  | succ m ih =>
    have hshift : (List.range m).map (fun k => n / 16 ^ (m - k))
        = (List.range m).map (fun k => n / 16 / 16 ^ (m - 1 - k)) := by
      apply List.map_congr_left
      intro k hk
      rw [List.mem_range] at hk
      have hsub : m - k = m - 1 - k + 1 := by omega
      rw [hsub, Nat.pow_succ', Nat.div_div_eq_div_mul]
    rw [List.range_succ, List.map_append, List.foldl_append, Nat.add_sub_cancel, hshift, ih]
    simp only [List.map_cons, List.map_nil, List.foldl_cons, List.foldl_nil, Nat.sub_self, Nat.pow_zero, Nat.div_one]
    rw [Nat.pow_succ', Nat.mod_mul]
    omega

theorem groups_append (l : List Char) :
    l.take 8 ++ ((l.drop 8).take 4 ++ ((l.drop 12).take 4 ++ ((l.drop 16).take 4 ++ l.drop 20))) = l := by
  have h₁ : (l.drop 16).take 4 ++ l.drop 20 = l.drop 16 := by
    rw [show l.drop 20 = (l.drop 16).drop 4 by rw [List.drop_drop], List.take_append_drop]
  have h₂ : (l.drop 12).take 4 ++ l.drop 16 = l.drop 12 := by
    rw [show l.drop 16 = (l.drop 12).drop 4 by rw [List.drop_drop], List.take_append_drop]
  have h₃ : (l.drop 8).take 4 ++ l.drop 12 = l.drop 8 := by
    rw [show l.drop 12 = (l.drop 8).drop 4 by rw [List.drop_drop], List.take_append_drop]
  rw [h₁, h₂, h₃, List.take_append_drop]

/-- **The text of an identity reads back as the identity**, an identity having 128 bits. -/
theorem parseUuid_uuidText (n : Nat) : parseUuid (uuidText n) = some (n % 16 ^ 32) := by
  -- the digits of the text, and the text
  obtain ⟨ks, hks⟩ : ∃ ks, (List.range 32).map (fun k => n / 16 ^ (31 - k)) = ks := ⟨_, rfl⟩
  have hlen : ks.length = 32 := by simp [← hks]
  have hdigits : (List.range 32).map (fun k => Json.hexChar (n / 16 ^ (31 - k))) = ks.map Json.hexChar := by
    rw [← hks, List.map_map]
    rfl
  have hmem : ∀ l : List Char, l.Sublist (ks.map Json.hexChar) → ∀ c ∈ l, ∃ k, c = Json.hexChar k := by
    intro l hl c hc
    obtain ⟨k, -, rfl⟩ := List.mem_map.mp (hl.subset hc)
    exact ⟨k, rfl⟩
  have htext : (uuidText n).toList = (ks.map Json.hexChar).take 8 ++ ['-'] ++ ((ks.map Json.hexChar).drop 8).take 4 ++
      ['-'] ++ ((ks.map Json.hexChar).drop 12).take 4 ++ ['-'] ++ ((ks.map Json.hexChar).drop 16).take 4 ++ ['-'] ++
      (ks.map Json.hexChar).drop 20 := by
    unfold uuidText
    rw [hdigits, String.toList_ofList]
  have hchars : ∀ c ∈ (uuidText n).toList, c = '-' ∨ ∃ k, c = Json.hexChar k := by
    intro c hc
    rw [htext] at hc
    simp only [List.mem_append, List.mem_singleton] at hc
    rcases hc with (((((((hc | hc) | hc) | hc) | hc) | hc) | hc) | hc) | hc
    · exact .inr (hmem _ (List.take_sublist _ _) c hc)
    · exact .inl hc
    · exact .inr (hmem _ ((List.take_sublist _ _).trans (List.drop_sublist _ _)) c hc)
    · exact .inl hc
    · exact .inr (hmem _ ((List.take_sublist _ _).trans (List.drop_sublist _ _)) c hc)
    · exact .inl hc
    · exact .inr (hmem _ ((List.take_sublist _ _).trans (List.drop_sublist _ _)) c hc)
    · exact .inl hc
    · exact .inr (hmem _ (List.drop_sublist _ _) c hc)
  -- none of the preparations finds anything
  have hu : 'u' ∉ (uuidText n).toList := by
    intro hc
    rcases hchars _ hc with h | ⟨k, h⟩
    · exact absurd h (by decide)
    · exact (hexChar_plain k).1 h.symm
  have hbrace : ∀ c ∈ (uuidText n).toList, (c.toNat = 0x7b || c.toNat = 0x7d) = false := by
    intro c hc
    rcases hchars c hc with rfl | ⟨k, rfl⟩
    · decide
    · exact (hexChar_plain k).2.2.2.2.2.2.1
  have hkeep : ∀ l : List Char, l.Sublist (ks.map Json.hexChar) → l.filter (fun c => c != '-') = l := by
    intro l hl
    apply List.filter_eq_self.mpr
    intro c hc
    obtain ⟨k, rfl⟩ := hmem l hl c hc
    simpa using (hexChar_plain k).2.1
  have hfilter : (uuidText n).toList.filter (fun c => c != '-') = ks.map Json.hexChar := by
    rw [htext]
    simp only [List.filter_append]
    rw [hkeep _ (List.take_sublist _ _), hkeep _ ((List.take_sublist _ _).trans (List.drop_sublist _ _)),
      hkeep _ ((List.take_sublist _ _).trans (List.drop_sublist _ _)),
      hkeep _ ((List.take_sublist _ _).trans (List.drop_sublist _ _)), hkeep _ (List.drop_sublist _ _)]
    have hdash : ['-'].filter (fun c => c != '-') = [] := by decide
    rw [hdash]
    simp only [List.append_nil, List.append_assoc]
    exact groups_append _
  have hurn : "urn:".toList = ['u', 'r', 'n', ':'] := by decide
  have huuid : "uuid:".toList = ['u', 'u', 'i', 'd', ':'] := by decide
  unfold parseUuid
  rw [hurn, huuid, removeAll_of_not_mem hu, removeAll_of_not_mem hu]
  dsimp only
  rw [strip_of_forall hbrace, hfilter, List.length_map, hlen, if_pos rfl, parseHex_map,
    hexDigits_map ks 0 false (.inl (by intro h; simp [h] at hlen)), ← hks]
  exact congrArg some (foldl_digits 32 n)

theorem isSome_parseUuid_uuidText (n : Nat) : (parseUuid (uuidText n)).isSome = true := by
  rw [parseUuid_uuidText]
  rfl

/-! ## Principals -/

theorem isSome_fromPayload {payload : Json} :
    (ResearchTaskPrincipal.fromPayload payload).isSome = true ↔ (uuidAt payload "actor_id").isSome = true ∧
      (uuidAt payload "department_id").isSome = true ∧ (uuidAt payload "workspace_id").isSome = true := by
  unfold ResearchTaskPrincipal.fromPayload
  cases uuidAt payload "actor_id" with
  | none => simp
  | some a =>
    cases uuidAt payload "department_id" with
    | none => simp
    | some d => cases uuidAt payload "workspace_id" <;> simp

theorem lookup_asKwargs (p : ResearchTaskPrincipal) :
    p.asKwargs.lookup "actor_id" = some (uuidText p.actorId) ∧
      p.asKwargs.lookup "department_id" = some (uuidText p.departmentId) ∧
      p.asKwargs.lookup "workspace_id" = some (uuidText p.workspaceId) := by
  refine ⟨rfl, ?_, ?_⟩
  · simp [ResearchTaskPrincipal.asKwargs, List.lookup_cons]
  · simp [ResearchTaskPrincipal.asKwargs, List.lookup_cons]

end Irip.Jobs
