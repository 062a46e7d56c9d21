import Irip.Common.Numeral
import Irip.Converters.Tga

/-!
# `Converters.TgaPrint` — what is read of a printed measurement

A `Document` has the columns and the rows; the first pass is followed line by line.
-/

namespace Irip.Converters.Tga

/-! ## Patterns -/

theorem isDec_digitChr : ∀ d : Fin 10, isDec (digitChr d) = true := by decide

theorem dropSign_eq (cs : List Char) : dropSign cs = (splitSign cs).2 := by
  cases cs with
  | nil => rfl
  | cons c cs =>
    by_cases hminus : c = '-'
    · subst hminus
      rfl
    · by_cases hplus : c = '+'
      · subst hplus
        rfl
      · have hhead : ∀ d ∈ (c :: cs).head?, d ≠ '-' ∧ d ≠ '+' := by simp [hminus, hplus]
        have hsplit : splitSign (c :: cs) = (false, c :: cs) := splitSign_chars .none hhead
        rw [hsplit]
        unfold dropSign
        split
        · next heq => exact absurd (List.cons.inj heq).1 hminus
        · next heq => exact absurd (List.cons.inj heq).1 hplus
        · rfl

theorem isDigits_map {ds : List (Fin 10)} (h : ds ≠ []) : isDigits (ds.map digitChr) = true := by
  have hall : (ds.map digitChr).all isDec = true := by
    rw [List.all_map]
    exact List.all_eq_true.mpr (fun d _ => isDec_digitChr d)
  unfold isDigits
  rw [hall]
  simp [h]

theorem isExponent_chars (e : Option Exponent) : isExponent ((e.map Exponent.chars).getD []) = true := by
  cases e with
  | none => rfl
  | some e =>
    have hsplit := splitSign_digits e.sign e.ne_nil []
    rw [List.append_nil] at hsplit
    have hdigits : isDigits (dropSign (e.sign.chars ++ e.digits.map digitChr)) = true := by
      rw [dropSign_eq, hsplit]
      exact isDigits_map e.ne_nil
    show isExponent e.chars = true
    unfold Exponent.chars isExponent
    dsimp only
    rw [hdigits]
    cases e.capital <;> rfl

theorem isNumber_body (n : Numeral) : isNumber n.body = true := by
  have hrest := n.rest_not_digit (p := isDec) (List.all_iff_forall_prop.mp (by decide))
  have hspan := span_digits isDec_digitChr n.whole hrest.1
  have hne : n.whole.map digitChr ≠ [] := fun h => n.ne_nil (List.map_eq_nil_iff.mp h)
  have hafter : afterNumber n.body = some n.exponentChars := by
    unfold afterNumber Numeral.body
    rw [hspan.1, hspan.2, if_neg hne]
    unfold Numeral.partChars
    cases n.part with
    | some ds => exact congrArg some (span_digits isDec_digitChr ds hrest.2).2
    | none =>
      rw [List.nil_append]
      split
      · next rest heq =>
          have hpoint : '.' ∈ n.exponentChars.head? := by
            rw [heq]
            rfl
          rcases n.exponentChars_head hpoint with h | h
          · exact absurd h (by decide)
          · exact absurd h (by decide)
      · rfl
  unfold isNumber
  rw [hafter]
  exact isExponent_chars n.exponent

theorem dropSign_text (n : Numeral) : dropSign n.text = n.body := by
  rw [dropSign_eq]
  exact congrArg Prod.snd (splitSign_digits n.sign n.ne_nil (n.partChars ++ n.exponentChars))

theorem dropMinus_text {n : Numeral} (h : n.sign ≠ .plus) : dropMinus n.text = n.body := by
  obtain ⟨d, tail, hbody⟩ := head_digits n.ne_nil (n.partChars ++ n.exponentChars)
  unfold Numeral.text Numeral.body
  rw [hbody]
  cases hsign : n.sign with
  | plus => exact absurd hsign h
  | minus => rfl
  | none =>
    show dropMinus (digitChr d :: tail) = _
    unfold dropMinus
    split
    · next heq => exact absurd (List.cons.inj heq).1 (digitChr_plain d).2.1
    · rfl

/-- The characters of a number: digits, a point, the letter of an exponent and signs. -/
def isNumberChar (c : Char) : Bool := isDec c || c ∈ ['.', 'e', 'E', '+', '-']

variable {c : Char} {entry : String × String} {ws : List (List Char)} {row : List Numeral}

theorem mem_dropSign {cs : List Char} (h : c ∈ cs) : c ∈ dropSign cs ∨ isNumberChar c = true := by
  unfold dropSign
  split
  · rcases List.mem_cons.mp h with rfl | h
    · exact .inr (by decide)
    · exact .inl h
  · rcases List.mem_cons.mp h with rfl | h
    · exact .inr (by decide)
    · exact .inl h
  · exact .inl h

theorem mem_dropMinus {cs : List Char} (h : c ∈ cs) : c ∈ dropMinus cs ∨ isNumberChar c = true := by
  unfold dropMinus
  split
  · rcases List.mem_cons.mp h with rfl | h
    · exact .inr (by decide)
    · exact .inl h
  · exact .inl h

theorem isNumberChar_of_isDec (h : isDec c = true) : isNumberChar c = true := by
  unfold isNumberChar
  rw [h]
  rfl

theorem isNumber_chars {cs : List Char} (h : isNumber cs = true) : ∀ c ∈ cs, isNumberChar c = true := by
  intro c hc
  obtain ⟨rest, hafter, hexponent⟩ := (Option.any_eq_true _ _).mp h
  have hrest : c ∈ rest ∨ isNumberChar c = true := by
    unfold afterNumber at hafter
    split at hafter
    · cases hafter
    · rw [← List.takeWhile_append_dropWhile (p := isDec) (l := cs)] at hc
      rcases List.mem_append.mp hc with hc | hc
      · exact .inr (isNumberChar_of_isDec (List.mem_takeWhile_imp hc))
      · split at hafter
        · next tail heq =>
            rw [heq] at hc
            rcases List.mem_cons.mp hc with rfl | hc
            · exact .inr (by decide)
            · rw [← List.takeWhile_append_dropWhile (p := isDec) (l := tail)] at hc
              rcases List.mem_append.mp hc with hc | hc
              · exact .inr (isNumberChar_of_isDec (List.mem_takeWhile_imp hc))
              · exact .inl (Option.some.inj hafter ▸ hc)
        · exact .inl (Option.some.inj hafter ▸ hc)
  rcases hrest with hc | hc
  · unfold isExponent at hexponent
    split at hexponent
    · cases hc
    · next letter digits =>
        obtain ⟨hletter, hdigits⟩ := Bool.and_eq_true_iff.mp hexponent
        rcases List.mem_cons.mp hc with rfl | hc
        · rcases Bool.or_eq_true_iff.mp hletter with h | h
          · rw [of_decide_eq_true h]
            decide
          · rw [of_decide_eq_true h]
            decide
        · rcases mem_dropSign hc with hc | hc
          · exact isNumberChar_of_isDec (List.all_eq_true.mp (Bool.and_eq_true_iff.mp hdigits).2 c hc)
          · exact hc
  · exact hc

theorem isDataLine_chars {line : Line} (h : isDataLine line = true) (hc : c ∈ line)
    (hplain : isSpace c = false) : isNumberChar c = true := by
  obtain ⟨w, hw, hcw⟩ := Words.exists_mem_words hc hplain
  change w ∈ words line at hw
  unfold isDataLine at h
  split at h
  · next first second rest heq =>
      obtain ⟨hfirst, hrest⟩ := Bool.and_eq_true_iff.mp h
      rw [heq] at hw
      rcases List.mem_cons.mp hw with rfl | hw
      · exact (mem_dropMinus hcw).elim (fun h => isNumber_chars hfirst c h) id
      · exact (mem_dropSign hcw).elim (fun h => isNumber_chars (List.all_eq_true.mp hrest w hw) c h) id
  · cases h

/-! ## Documents -/

/-- A measurement that is printed, with `gap` more blanks between the words of a line and `dashes` more dashes in a
separator than there have to be. -/
structure Document where
  header : List (String × String)
  names : List String
  units : List String
  rows : List (List Numeral)
  gap : Nat
  dashes : Nat

namespace Document

/-- `键: 值`. -/
def headerLine (entry : String × String) : Line := entry.1.toList ++ ':' :: ' ' :: entry.2.toList

/-- Words with blanks between them. -/
def wordLine (d : Document) (ws : List (List Char)) : Line := (List.replicate (d.gap + 1) ' ').intercalate ws

def separator (d : Document) : Line := List.replicate (10 + d.dashes) '-'

def dataLine (d : Document) (row : List Numeral) : Line := d.wordLine (row.map Numeral.text)

def lines (d : Document) : List Line :=
  d.header.map headerLine ++ d.separator :: d.wordLine (d.names.map String.toList) ::
    d.wordLine (d.units.map String.toList) :: d.separator :: d.rows.map d.dataLine

def text (d : Document) : String := String.ofList (d.lines.flatMap (· ++ ['\n']))

/-- The result that says what the document says, with the values of the header as `read` gives them. -/
def parsed (read : String → String) (path : String) (d : Document) : Parsed :=
  Tga.parsed path (fun key => ((d.header.find? (fun entry => entry.1 = key)).map (fun entry => read entry.2)).getD "")
    (List.zipWith (fun name unit => name ++ " (" ++ unit ++ ")") d.names d.units)
    (d.rows.map (·.map (fun n => binary64.ofRat n.value)))

end Document

/-- A name or a unit: no blanks, no colons, and no number. -/
structure Label (label : String) : Prop where
  word : Words.Word isSpace label.toList
  colon : ∀ c ∈ label.toList, isColon c = false
  number : isNumber (dropSign label.toList) = false

/-- At least two columns, a unit for each, and rows with a number for each. -/
structure Tabular (d : Document) : Prop where
  columns : 2 ≤ d.names.length
  units : d.units.length = d.names.length
  labels : ∀ label ∈ d.names ++ d.units, Label label
  rows : d.rows ≠ []
  width : ∀ row ∈ d.rows, row.length = d.names.length

/-- No row starts with a plus sign. -/
def FirstPlain (d : Document) : Prop := ∀ row ∈ d.rows, ∀ n ∈ row.head?, n.sign ≠ .plus

/-- An entry of the header: a key without colons or blanks at its ends, and a value, both on one line. -/
structure HeaderEntry (entry : String × String) : Prop where
  ne_nil : entry.1.toList ≠ []
  trimmed : trim entry.1.toList = entry.1.toList
  colon : ∀ c ∈ entry.1.toList, isColon c = false
  line : ∀ c ∈ entry.1.toList ++ entry.2.toList, isBreak c = false

/-! ## Lines -/

theorem isSpace_of_isBreak (h : isBreak c = true) : isSpace c = true := by
  unfold isBreak at h
  unfold isSpace
  simp only [Bool.or_eq_true, Bool.and_eq_true, decide_eq_true_eq, beq_iff_eq] at h ⊢
  omega

theorem trim_headerLine (h : HeaderEntry entry) : trim (Document.headerLine entry) =
    entry.1.toList ++ ':' :: (' ' :: entry.2.toList).rdropWhile isSpace := by
  obtain ⟨c, cs, hkey⟩ := List.exists_cons_of_ne_nil h.ne_nil
  have hc : isSpace c = false := by
    by_contra hblank
    rw [Bool.not_eq_false] at hblank
    have hlength := congrArg List.length h.trimmed
    have hle := Words.length_trim_le isSpace cs
    rw [hkey, trim, Words.trim_cons_of_blank hblank] at hlength
    simp only [List.length_cons] at hlength
    omega
  unfold Document.headerLine
  rw [hkey]
  exact Words.trim_append_cons (by decide) hc cs _

theorem parseHeaderLine_headerLine (h : HeaderEntry entry) :
    parseHeaderLine (trim (Document.headerLine entry)) = some (entry.1, strip entry.2) := by
  obtain ⟨c, cs, hkey⟩ := List.exists_cons_of_ne_nil h.ne_nil
  have hplain : ∀ d ∈ cs, (!isColon d) = true := by
    intro d hd
    rw [h.colon d (hkey ▸ List.mem_cons_of_mem c hd)]
    rfl
  have hspan : ∀ rest, (cs ++ ':' :: rest).takeWhile (fun d => !isColon d) = cs ∧
      (cs ++ ':' :: rest).dropWhile (fun d => !isColon d) = ':' :: rest := by
    intro rest
    rw [List.takeWhile_append_of_pos hplain, List.dropWhile_append_of_pos hplain]
    exact ⟨List.append_nil cs, rfl⟩
  have hvalue : trim ((' ' :: entry.2.toList).rdropWhile isSpace) = trim entry.2.toList := by
    rw [trim, Words.trim_rdropWhile, Words.trim_cons_of_blank (by decide)]
  rw [trim_headerLine h, hkey, List.cons_append]
  unfold parseHeaderLine
  dsimp only
  rw [(hspan _).1, (hspan _).2]
  dsimp only
  rw [← hkey, h.trimmed, if_neg h.ne_nil, hvalue, String.ofList_toList]
  rfl

variable {d : Document} {s : Scan} {i : Nat}

theorem scanLine_headerLine (h : HeaderEntry entry) :
    scanLine s (Document.headerLine entry, i) = { s with headerParams := s.headerParams.set entry.1 (strip entry.2) } := by
  have hparse := parseHeaderLine_headerLine h
  have hcolon : ':' ∈ trim (Document.headerLine entry) := by
    rw [trim_headerLine h]
    exact List.mem_append_right _ List.mem_cons_self
  have hne : trim (Document.headerLine entry) ≠ [] := List.ne_nil_of_mem hcolon
  have hseparator : isSeparator (trim (Document.headerLine entry)) = false := by
    unfold isSeparator
    rw [Bool.and_eq_false_iff]
    exact .inr (List.all_eq_false.mpr ⟨':', hcolon, by decide⟩)
  have hdata : isDataLine (trim (Document.headerLine entry)) = false := by
    by_contra hdata
    exact absurd (isDataLine_chars (Bool.not_eq_false _ ▸ hdata) hcolon (by decide)) (by decide)
  unfold scanLine
  dsimp only
  rw [if_neg hne, if_neg (by simp [hseparator]), if_neg (by simp [hdata]), hparse]

theorem scanLine_separator :
    scanLine s (d.separator, i) = { s with separatorIndices := s.separatorIndices ++ [i] } := by
  have htrim : trim d.separator = d.separator := by
    refine Words.trim_eq_self (fun c hc => ?_) fun c hc => ?_
    · rw [List.eq_of_mem_replicate (List.mem_of_mem_head? hc)]
      decide
    · rw [List.eq_of_mem_replicate (List.mem_of_mem_getLast? hc)]
      decide
  have hseparator : isSeparator d.separator = true := by
    unfold isSeparator Document.separator
    rw [Bool.and_eq_true_iff]
    refine ⟨?_, List.all_eq_true.mpr fun c hc => ?_⟩
    · simp
    · rw [List.eq_of_mem_replicate hc]
      decide
  have hne : d.separator ≠ [] := by
    unfold Document.separator
    simp
  unfold scanLine
  dsimp only
  rw [htrim, if_neg hne, if_pos hseparator]

theorem mem_wordLine (hc : c ∈ d.wordLine ws) : c = ' ' ∨ ∃ w ∈ ws, c ∈ w := by
  rcases Words.mem_intercalate hc with hc | hc
  · exact .inl (List.eq_of_mem_replicate hc)
  · exact .inr hc

theorem words_wordLine (h : ∀ w ∈ ws, Words.Word isSpace w) : words (d.wordLine ws) = ws := by
  refine Words.words_intercalate ?_ (fun c hc => ?_) h
  · simp
  · rw [List.eq_of_mem_replicate hc]
    decide

theorem trim_wordLine (h : ∀ w ∈ ws, Words.Word isSpace w) : trim (d.wordLine ws) = d.wordLine ws :=
  Words.trim_intercalate _ h

theorem not_isSeparator_wordLine (h : 2 ≤ ws.length) : isSeparator (d.wordLine ws) = false := by
  match ws, h with
  | w :: w' :: ws, _ =>
    have hblank : ' ' ∈ d.wordLine (w :: w' :: ws) := by
      unfold Document.wordLine
      rw [List.intercalate_cons_cons, List.replicate_succ]
      simp
    unfold isSeparator
    rw [Bool.and_eq_false_iff]
    exact .inr (List.all_eq_false.mpr ⟨' ', hblank, by decide⟩)

theorem scanLine_labels {labels : List String} (htwo : 2 ≤ labels.length) (h : ∀ label ∈ labels, Label label)
    (hseparators : s.separatorIndices ≠ []) :
    scanLine s (d.wordLine (labels.map String.toList), i) =
      (if s.colLine = none then { s with colLine := some (d.wordLine (labels.map String.toList)) }
       else if s.unitLine = none then { s with unitLine := some (d.wordLine (labels.map String.toList)) }
       else s) := by
  have hwords : ∀ w ∈ labels.map String.toList, Words.Word isSpace w := by
    intro w hw
    obtain ⟨label, hlabel, rfl⟩ := List.mem_map.mp hw
    exact (h label hlabel).word
  have hsplit := words_wordLine (d := d) hwords
  have hdata : isDataLine (d.wordLine (labels.map String.toList)) = false := by
    unfold isDataLine
    rw [hsplit]
    match labels, htwo with
    | first :: second :: rest, _ =>
      have hsecond := (h second (by simp)).number
      simp [hsecond]
  have hheader : parseHeaderLine (d.wordLine (labels.map String.toList)) = none := by
    have hplain : ∀ c ∈ d.wordLine (labels.map String.toList), (!isColon c) = true := by
      intro c hc
      rcases mem_wordLine hc with rfl | ⟨w, hw, hcw⟩
      · rfl
      · obtain ⟨label, hlabel, rfl⟩ := List.mem_map.mp hw
        rw [(h label hlabel).colon c hcw]
        rfl
    unfold parseHeaderLine
    split
    · rfl
    · next c cs heq =>
        rw [heq, List.forall_mem_cons] at hplain
        rw [List.dropWhile_eq_nil_iff.mpr hplain.2]
  have hne : d.wordLine (labels.map String.toList) ≠ [] := by
    intro hnil
    rw [hnil] at hsplit
    have hlength := congrArg List.length hsplit
    rw [List.length_map] at hlength
    change 0 = _ at hlength
    omega
  have hseparator : isSeparator (d.wordLine (labels.map String.toList)) = false :=
    not_isSeparator_wordLine (by simpa using htwo)
  unfold scanLine
  dsimp only
  rw [trim_wordLine hwords, if_neg hne, if_neg (by simp [hseparator]), if_neg (by simp [hdata]), hheader]
  dsimp only
  rw [if_neg hseparators]

theorem word_text (n : Numeral) : Words.Word isSpace n.text := ⟨n.text_ne_nil, n.text_not_space⟩

theorem words_dataLine (row : List Numeral) : ∀ w ∈ row.map Numeral.text, Words.Word isSpace w := by
  intro w hw
  obtain ⟨n, _, rfl⟩ := List.mem_map.mp hw
  exact word_text n

theorem isDataLine_dataLine (htwo : 2 ≤ row.length) (hfirst : ∀ n ∈ row.head?, n.sign ≠ .plus) :
    isDataLine (d.dataLine row) = true := by
  have hsplit : words (d.dataLine row) = row.map Numeral.text := words_wordLine (words_dataLine row)
  unfold isDataLine
  rw [hsplit]
  match row, htwo with
  | first :: second :: rest, _ =>
    rw [List.map_cons, List.map_cons]
    dsimp only
    rw [dropMinus_text (hfirst first rfl), isNumber_body, Bool.true_and, ← List.map_cons, List.all_map]
    refine List.all_eq_true.mpr fun n _ => ?_
    show isNumber (dropSign n.text) = true
    rw [dropSign_text, isNumber_body]

theorem scanLine_dataLine (htwo : 2 ≤ row.length) (hfirst : ∀ n ∈ row.head?, n.sign ≠ .plus) :
    scanLine s (d.dataLine row, i) = s := by
  have htrim : trim (d.dataLine row) = d.dataLine row := trim_wordLine (words_dataLine row)
  unfold scanLine
  dsimp only
  rw [htrim, if_pos (isDataLine_dataLine htwo hfirst)]
  split
  · rfl
  · rw [if_neg]
    have hseparator : isSeparator (d.dataLine row) = false := not_isSeparator_wordLine (by simpa using htwo)
    simp [hseparator]

theorem parseDataLine_dataLine (htwo : 2 ≤ row.length) (hfirst : ∀ n ∈ row.head?, n.sign ≠ .plus) :
    parseDataLine (d.dataLine row) = some (row.map (fun n => binary64.ofRat n.value)) := by
  have htrim : trim (d.dataLine row) = d.dataLine row := trim_wordLine (words_dataLine row)
  have hsplit : words (d.dataLine row) = row.map Numeral.text := words_wordLine (words_dataLine row)
  unfold parseDataLine
  rw [htrim, if_pos (isDataLine_dataLine htwo hfirst), hsplit]
  clear htwo hfirst htrim hsplit
  induction row with
  | nil => rfl
  | cons n row ih =>
    rw [List.map_cons, List.mapM_cons, n.pyFloat?_text, ih]
    rfl

theorem foldl_header {header : List (String × String)} (h : ∀ entry ∈ header, HeaderEntry entry) (s : Scan) (i : Nat) :
    ((header.map Document.headerLine).zipIdx i).foldl scanLine s =
      { s with headerParams := s.headerParams.setAll (header.map (fun entry => (entry.1, strip entry.2))) } := by
  induction header generalizing s i with
  | nil => rfl
  | cons entry header ih =>
    rw [List.forall_mem_cons] at h
    rw [List.map_cons, List.zipIdx_cons, List.foldl_cons, scanLine_headerLine h.1, ih h.2]
    rfl

theorem foldl_data {rows : List (List Numeral)} (htwo : ∀ row ∈ rows, 2 ≤ row.length)
    (hfirst : ∀ row ∈ rows, ∀ n ∈ row.head?, n.sign ≠ .plus) (s : Scan) (i : Nat) :
    ((rows.map d.dataLine).zipIdx i).foldl scanLine s = s := by
  induction rows generalizing i with
  | nil => rfl
  | cons row rows ih =>
    rw [List.forall_mem_cons] at htwo hfirst
    rw [List.map_cons, List.zipIdx_cons, List.foldl_cons, scanLine_dataLine htwo.1 hfirst.1, ih htwo.2 hfirst.2]

theorem scan_lines (h : Tabular d) (hfirst : FirstPlain d) (hheader : ∀ entry ∈ d.header, HeaderEntry entry) :
    scan d.lines =
    { headerParams := Dict.ofList (d.header.map (fun entry => (entry.1, strip entry.2)))
      separatorIndices := [d.header.length, d.header.length + 3]
      colLine := some (d.wordLine (d.names.map String.toList))
      unitLine := some (d.wordLine (d.units.map String.toList)) } := by
  have htwo : ∀ row ∈ d.rows, 2 ≤ row.length := fun row hrow => (h.width row hrow).symm ▸ h.columns
  have hnames : ∀ label ∈ d.names, Label label := fun label hl => h.labels label (List.mem_append_left _ hl)
  have hunits : ∀ label ∈ d.units, Label label := fun label hl => h.labels label (List.mem_append_right _ hl)
  let params := Dict.ofList (d.header.map (fun entry => (entry.1, strip entry.2)))
  let names := d.wordLine (d.names.map String.toList)
  let units := d.wordLine (d.units.map String.toList)
  let n := d.header.length
  have hopen : scanLine ⟨params, [], none, none⟩ (d.separator, n) = ⟨params, [n], none, none⟩ := scanLine_separator
  have hcol : scanLine ⟨params, [n], none, none⟩ (names, n + 1) = ⟨params, [n], some names, none⟩ :=
    scanLine_labels h.columns hnames (List.cons_ne_nil _ _)
  have hunit : scanLine ⟨params, [n], some names, none⟩ (units, n + 2) = ⟨params, [n], some names, some units⟩ :=
    scanLine_labels (h.units.symm ▸ h.columns) hunits (List.cons_ne_nil _ _)
  have hlast : scanLine ⟨params, [n], some names, some units⟩ (d.separator, n + 3) =
      ⟨params, [n, n + 3], some names, some units⟩ := scanLine_separator
  unfold scan Document.lines
  rw [List.zipIdx_append, List.foldl_append, foldl_header hheader, List.length_map, Nat.zero_add]
  simp only [List.zipIdx_cons, List.foldl_cons]
  change List.foldl scanLine (scanLine (scanLine (scanLine (scanLine ⟨params, [], none, none⟩ (d.separator, n))
    (names, n + 1)) (units, n + 2)) (d.separator, n + 3)) _ = _
  rw [hopen, hcol, hunit, hlast, foldl_data htwo hfirst]

/-! ## Result -/

theorem buildColumnNames_wordLine (h : Tabular d) :
    buildColumnNames (d.wordLine (d.names.map String.toList)) (d.wordLine (d.units.map String.toList)) =
      List.zipWith (fun name unit => name ++ " (" ++ unit ++ ")") d.names d.units := by
  have hwords : ∀ labels : List String, (∀ label ∈ labels, Label label) →
      words (d.wordLine (labels.map String.toList)) = labels.map String.toList := by
    intro labels hlabels
    refine words_wordLine fun w hw => ?_
    obtain ⟨label, hlabel, rfl⟩ := List.mem_map.mp hw
    exact (hlabels label hlabel).word
  unfold buildColumnNames
  rw [hwords d.names (fun label hl => h.labels label (List.mem_append_left _ hl)),
    hwords d.units (fun label hl => h.labels label (List.mem_append_right _ hl))]
  have hlength := h.units
  refine List.ext_getElem (by simp [hlength]) fun i hi hi' => ?_
  have hname : i < d.names.length := by simpa using hi
  have hunit : i < d.units.length := hlength ▸ hname
  have hjoin : ∀ name unit : String, String.ofList (name.toList ++ " (".toList ++ unit.toList ++ ")".toList) =
      name ++ " (" ++ unit ++ ")" := by
    intro name unit
    refine String.toList_inj.mp ?_
    rw [String.toList_ofList, String.toList_append, String.toList_append, String.toList_append]
  rw [List.getElem_mapIdx, List.getElem_zipWith, ← hjoin]
  simp only [List.getElem_map, List.getElem?_map, List.getElem?_eq_getElem hunit, Option.map_some]

theorem lines_plain (h : Tabular d) (hheader : ∀ entry ∈ d.header, HeaderEntry entry) :
    ∀ l ∈ d.lines, ∀ c ∈ l, isBreak c = false := by
  have hwordLine : ∀ ws : List (List Char), (∀ w ∈ ws, Words.Word isSpace w) →
      ∀ c ∈ d.wordLine ws, isBreak c = false := by
    intro ws hws c hc
    rcases mem_wordLine hc with rfl | ⟨w, hw, hcw⟩
    · rfl
    · by_contra hbreak
      have hspace := isSpace_of_isBreak (Bool.not_eq_false _ ▸ hbreak)
      rw [(hws w hw).plain c hcw] at hspace
      cases hspace
  have hlabels : ∀ labels : List String, (∀ label ∈ labels, Label label) →
      ∀ c ∈ d.wordLine (labels.map String.toList), isBreak c = false := by
    intro labels hlabels
    refine hwordLine _ fun w hw => ?_
    obtain ⟨label, hlabel, rfl⟩ := List.mem_map.mp hw
    exact (hlabels label hlabel).word
  have hseparator : ∀ c ∈ d.separator, isBreak c = false := by
    intro c hc
    rw [List.eq_of_mem_replicate hc]
    rfl
  intro l hl
  unfold Document.lines at hl
  rw [List.mem_append, List.mem_cons, List.mem_cons, List.mem_cons, List.mem_cons] at hl
  rcases hl with hl | rfl | rfl | rfl | rfl | hl
  · obtain ⟨entry, hentry, rfl⟩ := List.mem_map.mp hl
    intro c hc
    have hline := (hheader entry hentry).line
    unfold Document.headerLine at hc
    rcases List.mem_append.mp hc with hc | hc
    · exact hline c (List.mem_append_left _ hc)
    · rcases List.mem_cons.mp hc with rfl | hc
      · rfl
      · rcases List.mem_cons.mp hc with rfl | hc
        · rfl
        · exact hline c (List.mem_append_right _ hc)
  · exact hseparator
  · exact hlabels _ fun label hl => h.labels label (List.mem_append_left _ hl)
  · exact hlabels _ fun label hl => h.labels label (List.mem_append_right _ hl)
  · exact hseparator
  · obtain ⟨row, _, rfl⟩ := List.mem_map.mp hl
    exact hwordLine _ (words_dataLine row)

theorem dataRows_lines (h : Tabular d) (hfirst : FirstPlain d) : dataRows d.names.length (d.rows.map d.dataLine) =
    d.rows.map (·.map (fun n => binary64.ofRat n.value)) := by
  have hwidth := h.width
  have hcolumns := h.columns
  unfold FirstPlain at hfirst
  unfold dataRows
  generalize d.rows = rows at hwidth hfirst
  induction rows with
  | nil => rfl
  | cons row rows ih =>
    rw [List.forall_mem_cons] at hwidth hfirst
    have htwo : 2 ≤ row.length := hwidth.1.symm ▸ hcolumns
    have hrow : (row.map (fun n => binary64.ofRat n.value)).take d.names.length =
        row.map (fun n => binary64.ofRat n.value) := List.take_of_length_le (by simp [hwidth.1])
    rw [List.map_cons, List.filterMap_cons, parseDataLine_dataLine htwo hfirst.1]
    dsimp only
    rw [if_pos (by simpa using htwo), hrow]
    dsimp only
    rw [ih hwidth.2 hfirst.2, List.map_cons]

/-- **Reading undoes printing**: the columns with their units, the rows in their order, and the values of the header. -/
theorem parseTga_text (path : String) (h : Tabular d) (hfirst : FirstPlain d)
    (hheader : ∀ entry ∈ d.header, HeaderEntry entry) (hkeys : (d.header.map Prod.fst).Nodup) (hne : d.header ≠ []) :
    parseTga path d.text = .ok (d.parsed strip path) := by
  have hlines : splitlines d.text.toList = d.lines := by
    unfold Document.text
    rw [String.toList_ofList, splitlines_flatMap (lines_plain h hheader)]
  have hdrop : d.lines.drop (d.header.length + 3 + 1) = d.rows.map d.dataLine := by
    have hsplit : d.lines = (d.header.map Document.headerLine ++ [d.separator, d.wordLine (d.names.map String.toList),
        d.wordLine (d.units.map String.toList), d.separator]) ++ d.rows.map d.dataLine := by
      unfold Document.lines
      simp
    rw [hsplit]
    exact List.drop_left' (by simp)
  have hnodup : ((d.header.map (fun entry => (entry.1, strip entry.2))).map Prod.fst).Nodup := by
    rw [List.map_map]
    exact hkeys
  have hentries := Dict.entries_ofList hnodup
  have hvalue : ∀ key, (Dict.ofList (d.header.map (fun entry => (entry.1, strip entry.2)))).getD key "" =
      ((d.header.find? (fun entry => entry.1 = key)).map (fun entry => strip entry.2)).getD "" := by
    intro key
    unfold Dict.getD Dict.get?
    rw [hentries, List.find?_map, Option.map_map]
    rfl
  have hcolumns : (List.zipWith (fun name unit => name ++ " (" ++ unit ++ ")") d.names d.units).length = d.names.length := by
    rw [List.length_zipWith, h.units, Nat.min_self]
  have hscan := scan_lines h hfirst hheader
  have hrows := dataRows_lines h hfirst
  rw [← hcolumns, ← hdrop, ← hlines] at hrows
  rw [← hlines] at hscan
  refine (parseTga_eq hscan (buildColumnNames_wordLine h) hrows).trans ?_
  rw [if_neg (by simpa [hentries] using hne), if_neg (by simpa using h.rows)]
  simp only [hvalue]
  rfl

/-! ### Documents that are read otherwise -/

/-- The numeral with one digit before the point and one behind it. -/
def numeral (sign : Sign) (whole part : Fin 10) : Numeral where
  sign := sign
  whole := [whole]
  part := some [part]
  exponent := none
  ne_nil := List.cons_ne_nil _ _

/-- Two columns and one row, the first number of which has the sign. -/
def document (header : List (String × String)) (sign : Sign) : Document where
  header := header
  names := ["温度", "时间"]
  units := ["℃", "min"]
  rows := [[numeral sign 2 5, numeral .plus 0 1]]
  gap := 2
  dashes := 0

theorem tabular_document (header : List (String × String)) (sign : Sign) : Tabular (document header sign) where
  columns := Nat.le_refl 2
  units := rfl
  labels := by
    have hlabels : ∀ label ∈ ["温度", "时间", "℃", "min"], Label label := by
      have hword : ∀ label ∈ ["温度", "时间", "℃", "min"],
          label.toList ≠ [] ∧ label.toList.all (fun c => !isSpace c) = true ∧ label.toList.all (fun c => !isColon c) = true ∧
            isNumber (dropSign label.toList) = false := by
        decide +kernel
      intro label hlabel
      obtain ⟨hne, hplain, hcolon, hnumber⟩ := hword label hlabel
      exact ⟨⟨hne, by simpa using hplain⟩, by simpa using hcolon, hnumber⟩
    exact hlabels
  rows := List.cons_ne_nil _ _
  width := by
    intro row hrow
    rw [List.mem_singleton.mp hrow]
    rfl

/-- The instrument's name is read, with the colon that it holds. -/
theorem parseTga_text_instrument : parseTga "/data/a.txt" (document [("仪器", "STA: 449")] .minus).text =
    .ok ((document [("仪器", "STA: 449")] .minus).parsed strip "/data/a.txt") := by
  refine parseTga_text "/data/a.txt" (tabular_document _ _) (fun row hrow n hn => ?_) (fun entry hentry => ?_)
    (by simp [document]) (List.cons_ne_nil _ _)
  · rw [List.mem_singleton.mp hrow] at hn
    rw [← Option.some.inj hn]
    decide
  · rw [List.mem_singleton.mp hentry]
    exact ⟨by decide, by decide +kernel, List.all_iff_forall_prop.mp (by decide +kernel),
      List.all_iff_forall_prop.mp (by decide +kernel)⟩

/-- The name of the instrument in a result. -/
def instrument : Except Failure Parsed → Option String
  | .ok r => (r.metadata.find? (fun m => m.1 = "instrument")).bind (fun m => match m.2 with
    | .str name => some name
    | _ => none)
  | .error _ => none

/-- **Documents that are read otherwise**: without a header, with blanks around a value, with a line break in it, with blanks
around a key, and with a plus sign in front of a row. -/
theorem not_parseTga_text : [document [] .none, document [("仪器", " STA")] .none,
      document [("仪器", "STA\n449")] .none, document [(" 仪器", "STA")] .none, document [("仪器", "STA")] .plus].Forall
    fun d => Tabular d ∧ (d.header.map Prod.fst).Nodup ∧ (∀ entry ∈ d.header, ∀ c ∈ entry.1.toList, isColon c = false) ∧
      parseTga "" d.text ≠ .ok (d.parsed id "") := by
  have hdiffer : ∀ d : Document, instrument (parseTga "" d.text) ≠ instrument (.ok (d.parsed id "")) →
      parseTga "" d.text ≠ .ok (d.parsed id "") := fun d h heq => h (congrArg instrument heq)
  rw [List.forall_iff_forall_mem]
  intro d hd
  simp only [List.mem_cons, List.not_mem_nil, or_false] at hd
  rcases hd with rfl | rfl | rfl | rfl | rfl
  all_goals
    have hcolon : ∀ entry : String × String, entry.1.toList.all (fun c => !isColon c) = true →
        ∀ c ∈ entry.1.toList, isColon c = false := fun entry h => by simpa using h
    refine ⟨tabular_document _ _, by simp [document], fun entry hentry => hcolon entry ?_, hdiffer _ ?_⟩
    · revert entry
      exact List.all_iff_forall_prop.mp (by decide +kernel)
    · unfold parseTga Document.text
      rw [String.toList_ofList]
      decide +kernel

end Irip.Converters.Tga
