import Irip.Converters.Xrd

/-!
# `Converters.XrdFields` — what of a diffractometer's file comes back in its result

A key of a file goes one of four ways: into the metadata, into a series if it is numbered, into a unit, or into a point. What an
exclusion of one way leaves to another is lost where the other does not take it.
-/

namespace Irip.Converters.Xrd

open Evaluation (bind_ok_iff)

/-! ## Lines -/

/-- The lines `*KEY "VALUE"`. -/
def starLines (content : String) : List (String × String) :=
  (splitlines content.toList).filterMap (fun line => parseStarLine (trim line))

/-- The lines `#KEY=VALUE`. -/
def hashLines (content : String) : List (String × String) :=
  (splitlines content.toList).filterMap (fun line => parseHashLine (trim line))

/-- A word that is a number, with a sign and an exponent or without. -/
def isNumeral (w : List Char) : Bool :=
  w.all (fun c => isDec c || c ∈ ['.', '+', '-', 'e', 'E']) && (pyFloat? (String.ofList w)).isSome

/-- Two columns of numbers. -/
def isNumericLine (line : Line) : Bool :=
  match words line with
  | [x, y] => isNumeral x && isNumeral y
  | _ => false

/-- The point of a line of two numbers. -/
def numericPoint (line : Line) : Option (FloatNum × FloatNum) := if isNumericLine line then twoFloats line else none

/-- The point of a line of data. -/
def dataPoint (line : Line) : Option (FloatNum × FloatNum) := if isXrdDataLine line then twoFloats line else none

/-- The points of the lines that are two columns of numbers, in their order. -/
def numericLines (content : String) : List (FloatNum × FloatNum) :=
  (splitlines content.toList).filterMap (fun line => numericPoint (trim line))

variable {line : Line} {e : String × String} {s : Scan} {content raw base path : String} {numbered : Numbered}

theorem parseHashLine_of_star (h : parseStarLine line = some e) : parseHashLine line = none := by
  unfold parseStarLine at h
  split at h
  · rfl
  · cases h

theorem isNumeral_of_isPlain {w : List Char} {x : FloatNum} (h : isPlain w = true) (hx : pyFloat? (String.ofList w) = some x) :
    isNumeral w = true := by
  unfold isNumeral
  rw [hx, Option.isSome_some, Bool.and_true, List.all_eq_true]
  intro c hc
  have hafter : afterNumber w = some [] := of_decide_eq_true h
  unfold afterNumber at hafter
  split at hafter
  · cases hafter
  · have hsplit := List.takeWhile_append_dropWhile (p := isDec) (l := w)
    rw [← hsplit] at hc
    rcases List.mem_append.mp hc with hc | hc
    · rw [List.mem_takeWhile_imp hc, Bool.true_or]
    · split at hafter
      · next rest heq =>
          rw [heq] at hc
          rcases List.mem_cons.mp hc with rfl | hc
          · rw [decide_eq_true (List.mem_cons_self), Bool.or_true]
          · have hdigits := List.dropWhile_eq_nil_iff.mp (Option.some.inj hafter) c hc
            rw [hdigits, Bool.true_or]
      · rw [Option.some.inj hafter] at hc
        cases hc

theorem char_of_isNumericLine (h : isNumericLine line = true) {c : Char} (hc : c ∈ line) :
    isSpace c = true ∨ isDec c = true ∨ c ∈ ['.', '+', '-', 'e', 'E'] := by
  cases hspace : isSpace c with
  | true => exact .inl rfl
  | false =>
    refine .inr ?_
    obtain ⟨w, hw, hcw⟩ := Words.exists_mem_words hc hspace
    have hword : isNumeral w = true := by
      unfold isNumericLine at h
      split at h
      · next x y heq =>
          have hboth := Bool.and_eq_true_iff.mp h
          have hw : w ∈ [x, y] := heq ▸ hw
          rcases List.mem_pair.mp hw with rfl | rfl
          · exact hboth.1
          · exact hboth.2
      · cases h
    have hchar := List.all_eq_true.mp (Bool.and_eq_true_iff.mp hword).1 c hcw
    rcases Bool.or_eq_true_iff.mp hchar with hdec | hmem
    · exact .inl hdec
    · exact .inr (of_decide_eq_true hmem)

theorem parseStarLine_of_numeric (h : isNumericLine line = true) : parseStarLine line = none := by
  unfold parseStarLine
  split
  · rcases char_of_isNumericLine h List.mem_cons_self with hc | hc | hc
    · exact absurd hc (by decide)
    · exact absurd hc (by decide)
    · exact absurd hc (by decide)
  · rfl

theorem parseHashLine_of_numeric (h : isNumericLine line = true) : parseHashLine line = none := by
  unfold parseHashLine
  split
  · rcases char_of_isNumericLine h List.mem_cons_self with hc | hc | hc
    · exact absurd hc (by decide)
    · exact absurd hc (by decide)
    · exact absurd hc (by decide)
  · rfl

theorem isNumericLine_of_data {point : FloatNum × FloatNum} (h : isXrdDataLine line = true)
    (hpoint : twoFloats line = some point) : isNumericLine line = true := by
  unfold isXrdDataLine at h
  unfold twoFloats at hpoint
  unfold isNumericLine
  generalize words line = ws at h hpoint ⊢
  split at h
  · next x y =>
      obtain ⟨u, hu, hpoint⟩ := Option.bind_eq_some_iff.mp hpoint
      obtain ⟨v, hv, _⟩ := Option.map_eq_some_iff.mp hpoint
      have hboth := Bool.and_eq_true_iff.mp h
      exact Bool.and_eq_true_iff.mpr ⟨isNumeral_of_isPlain hboth.1 hu, isNumeral_of_isPlain hboth.2 hv⟩
  · cases h

theorem twoFloats_of_numeric (h : isNumericLine line = true) : ∃ point, twoFloats line = some point := by
  unfold isNumericLine at h
  unfold twoFloats
  generalize words line = ws at h ⊢
  split at h
  · next x y =>
      have hboth := Bool.and_eq_true_iff.mp h
      obtain ⟨u, hu⟩ := Option.isSome_iff_exists.mp (Bool.and_eq_true_iff.mp hboth.1).2
      obtain ⟨v, hv⟩ := Option.isSome_iff_exists.mp (Bool.and_eq_true_iff.mp hboth.2).2
      refine ⟨(u, v), ?_⟩
      show (pyFloat? (String.ofList x)).bind (fun a => (pyFloat? (String.ofList y)).map (fun b => (a, b))) = _
      rw [hu, hv]
      rfl
  · cases h

theorem numericPoint_of_dataPoint {point : FloatNum × FloatNum} (h : dataPoint line = some point) :
    isNumericLine line = true ∧ numericPoint line = some point := by
  obtain ⟨hdata, hpoint⟩ := Option.ite_none_right_eq_some.mp h
  have hnumeric := isNumericLine_of_data hdata hpoint
  refine ⟨hnumeric, ?_⟩
  unfold numericPoint
  rw [if_pos hnumeric, hpoint]

theorem dataPoint_of_key (h : parseStarLine line = some e ∨ parseHashLine line = some e) : dataPoint line = none := by
  cases hpoint : dataPoint line with
  | none => rfl
  | some point =>
    have hnumeric := (numericPoint_of_dataPoint hpoint).1
    rw [parseStarLine_of_numeric hnumeric, parseHashLine_of_numeric hnumeric] at h
    rcases h with h | h <;> cases h

theorem dataPoint_of_parse {point : Option (FloatNum × FloatNum)} (h : parseXrdDataLine line = .ok point) :
    dataPoint line = point := by
  unfold parseXrdDataLine at h
  unfold dataPoint
  split at h
  · next hdata =>
      rw [if_pos hdata]
      split at h
      · next p hp =>
          cases h
          exact hp
      · cases h
  · next hdata =>
      cases h
      exact if_neg hdata

theorem scanLine_fields {t : Scan} (h : scanLine s line = .ok t) :
    t.starParams = s.starParams.setAll (parseStarLine (trim line)).toList ∧
      t.hashParams = s.hashParams.setAll (parseHashLine (trim line)).toList ∧
      t.xrdData = s.xrdData ++ (dataPoint (trim line)).toList := by
  unfold scanLine at h
  dsimp only at h
  split at h
  · next hempty =>
      cases h
      rw [hempty]
      exact ⟨rfl, rfl, (List.append_nil _).symm⟩
  · split at h
    · next key value hstar =>
        cases h
        rw [dataPoint_of_key (.inl hstar), hstar, parseHashLine_of_star hstar]
        exact ⟨rfl, rfl, (List.append_nil _).symm⟩
    · next hstar =>
        split at h
        · next key value hhash =>
            cases h
            rw [dataPoint_of_key (.inr hhash), hstar, hhash]
            exact ⟨rfl, rfl, (List.append_nil _).symm⟩
        · next hhash =>
            cases hpoint : parseXrdDataLine (trim line) with
            | error e =>
              rw [hpoint] at h
              cases h
            | ok point =>
              rw [hpoint] at h
              cases h
              rw [dataPoint_of_parse hpoint, hstar, hhash]
              exact ⟨rfl, rfl, rfl⟩

theorem foldlM_scanLine_fields {lines : List Line} {t : Scan} (h : lines.foldlM scanLine s = .ok t) :
    t.starParams = s.starParams.setAll (lines.filterMap (fun line => parseStarLine (trim line))) ∧
      t.hashParams = s.hashParams.setAll (lines.filterMap (fun line => parseHashLine (trim line))) ∧
      t.xrdData = s.xrdData ++ lines.filterMap (fun line => dataPoint (trim line)) := by
  induction lines generalizing s with
  | nil =>
    cases h
    exact ⟨rfl, rfl, (List.append_nil _).symm⟩
  | cons line lines ih =>
    rw [List.foldlM_cons] at h
    obtain ⟨u, hu, h⟩ := bind_ok_iff.mp h
    obtain ⟨hstar, hhash, hdata⟩ := scanLine_fields hu
    obtain ⟨hstars, hhashes, hdatas⟩ := ih h
    have happend : ∀ (d : Dict String String) (o : Option (String × String)) (es : List (String × String)),
        (d.setAll o.toList).setAll es = d.setAll (o.toList ++ es) := fun d o es => List.foldl_append.symm
    have hcons : ∀ {β : Type} (f : Line → Option β),
        (line :: lines).filterMap f = (f line).toList ++ lines.filterMap f := by
      intro β f
      rw [List.filterMap_cons]
      cases f line <;> rfl
    rw [hstars, hhashes, hdatas, hstar, hhash, hdata, happend, happend, hcons, hcons, hcons, List.append_assoc]
    exact ⟨rfl, rfl, rfl⟩

/-- **What the pass over the lines keeps**, of a file whose keys are distinct. -/
theorem scan_fields (h : scan (splitlines content.toList) = .ok s)
    (hkeys : ((starLines content ++ hashLines content).map Prod.fst).Nodup) :
    s.starParams.entries = starLines content ∧ s.hashParams.entries = hashLines content ∧
      s.xrdData = (splitlines content.toList).filterMap (fun line => dataPoint (trim line)) := by
  obtain ⟨hstar, hhash, hdata⟩ := foldlM_scanLine_fields h
  rw [List.map_append] at hkeys
  refine ⟨?_, ?_, hdata⟩
  · rw [hstar]
    exact Dict.entries_ofList hkeys.of_append_left
  · rw [hhash]
    exact Dict.entries_ofList hkeys.of_append_right

theorem filterMap_sublist {α β : Type} {f g : α → Option β} (hfg : ∀ x b, f x = some b → g x = some b) (xs : List α) :
    (xs.filterMap f).Sublist (xs.filterMap g) := by
  induction xs with
  | nil => exact .slnil
  | cons x xs ih =>
    rw [List.filterMap_cons, List.filterMap_cons]
    cases hf : f x with
    | some b =>
      rw [hfg x b hf]
      exact ih.cons_cons b
    | none =>
      cases g x with
      | none => exact ih
      | some b => exact ih.cons b

theorem filterMap_eq_iff {α β : Type} {f g : α → Option β} (hfg : ∀ x b, f x = some b → g x = some b) {xs : List α} :
    xs.filterMap f = xs.filterMap g ↔ ∀ x ∈ xs, (g x).isSome = true → (f x).isSome = true := by
  induction xs with
  | nil => exact iff_of_true rfl (List.forall_mem_nil _)
  | cons x xs ih =>
    rw [List.filterMap_cons, List.filterMap_cons, List.forall_mem_cons]
    cases hf : f x with
    | some b =>
      rw [hfg x b hf, and_iff_right (fun h => h), ← ih]
      exact List.cons_inj_right b
    | none =>
      cases hg : g x with
      | none => rw [and_iff_right (fun h => h), ih]
      | some b =>
        refine iff_of_false (fun h => ?_) (fun h => by cases h.1 rfl)
        have hlength := (filterMap_sublist hfg xs).length_le
        have h : xs.filterMap f = b :: xs.filterMap g := h
        rw [h, List.length_cons] at hlength
        exact Nat.not_succ_le_self _ hlength

/-! ## Numbered fields -/

/-- The base and the number of a numbered key. -/
def numberOf (key : String) : Option (String × Nat) :=
  if isFileKey key then none else (indexSuffix key).map (fun suffix => (suffix.1, indexOf suffix.2))

/-- The last text under a base and a number. -/
def lastText (entries : List (String × String)) (base : String) (i : Nat) : Option String :=
  (entries.reverse.find? (fun e => numberOf e.1 = some (base, i))).map Prod.snd

theorem exists_lastText {entries : List (String × String)} {key : String} {i : Nat} (he : (key, raw) ∈ entries)
    (hnumber : numberOf key = some (base, i)) : ∃ last, lastText entries base i = some last := by
  have hfind : (entries.reverse.find? (fun e => numberOf e.1 = some (base, i))).isSome = true :=
    List.find?_isSome.mpr ⟨(key, raw), List.mem_reverse.mpr he, decide_eq_true hnumber⟩
  obtain ⟨e, he⟩ := Option.isSome_iff_exists.mp hfind
  exact ⟨e.2, congrArg (Option.map Prod.snd) he⟩

theorem addNumberedOf_eq (numbered : Numbered) (entry : String × String) :
    addNumberedOf numbered entry = match numberOf entry.1 with
      | none => numbered
      | some (b, i) => numbered.set b ((numbered.getD b ∅).set i entry.2) := by
  unfold addNumberedOf numberOf
  split
  · rfl
  · cases indexSuffix entry.1 <;> rfl

theorem get?_numberedOf (entries : List (String × String)) (base : String) (i : Nat) :
    ((numberedOf entries).getD base ∅).get? i = lastText entries base i := by
  unfold numberedOf lastText
  induction entries using List.reverseRecOn with
  | nil => rfl
  | append_singleton entries entry ih =>
    rw [List.foldl_append, List.foldl_cons, List.foldl_nil, addNumberedOf_eq, List.reverse_append, List.reverse_singleton,
      List.singleton_append, List.find?_cons]
    cases hnumber : numberOf entry.1 with
    | none => simpa using ih
    | some number =>
      obtain ⟨b, j⟩ := number
      dsimp only
      unfold Dict.getD at ih ⊢
      rw [Dict.get?_set]
      by_cases hbase : base = b
      · subst hbase
        rw [if_pos rfl, Option.getD_some, Dict.get?_set]
        by_cases hnum : i = j
        · subst hnum
          simp
        · have hother : ¬ j = i := fun h => hnum h.symm
          rw [if_neg hnum, ih]
          simp [hother]
      · have hother : ¬ b = base := fun h => hbase h.symm
        rw [if_neg hbase, ih]
        simp [hother]

/-! ## Series -/

/-- The fields of a series, behind its column of numbers. -/
def seriesFields (t : Series) : List String :=
  if t.columns = ["index", "value"] then [t.name]
  else match t.columns with
    | "index" :: fields => if fields = axisSubfields then fields.map (axisPrefix ++ ·) else fields
    | _ => []

/-- The cell of a field and a number. -/
def Addressed (r : Parsed) (base : String) (i : Nat) (v : Value) : Prop :=
  ∃ t ∈ r.series, ∃ cells, Value.int i :: cells ∈ t.rows ∧ (base, v) ∈ (seriesFields t).zip cells

/-- The fields of the series of the axes. -/
def axisBases : List String := axisSubfields.map (axisPrefix ++ ·)

theorem mem_indices {bases : List String} {i : Nat} :
    i ∈ indices numbered bases ↔ ∃ base ∈ bases, ∃ raw, (numbered.getD base ∅).get? i = some raw := by
  unfold indices
  rw [List.mem_insertionSort, List.mem_dedup, List.mem_flatMap]
  exact exists_congr fun base => and_congr_right fun _ => Dict.mem_keys_iff

theorem seriesFields_group (numbered : Numbered) (name : String) :
    seriesFields (seriesOf (groupSeries numbered name (groupBases numbered name))) = groupBases numbered name ∧
      (groupSeries numbered name (groupBases numbered name)).rows = rawRows numbered (groupBases numbered name) := by
  have hsorted : groupBases numbered name ≠ axisSubfields := by
    intro heq
    have hpairwise := List.pairwise_insertionSort (· ≤ ·)
      (numbered.keys.filter (fun base => !isAxisBase base && groupPrefix base = name))
    rw [show List.insertionSort _ _ = axisSubfields from heq] at hpairwise
    exact absurd hpairwise (by decide)
  unfold groupSeries
  split
  · next base heq =>
      rw [heq]
      exact ⟨if_pos rfl, rfl⟩
  · next hmany =>
      refine ⟨?_, rfl⟩
      unfold seriesFields seriesOf
      dsimp only
      rw [if_neg (fun hcolumns => hmany "value" (List.cons.inj hcolumns).2)]
      exact if_neg hsorted

/-- The series of the numbered fields: their rows belong to their fields, and of the axes only the known fields are there. -/
theorem rawSeries_fields {t : RawSeries} (h : t ∈ rawSeries numbered) :
    t.rows = rawRows numbered (seriesFields (seriesOf t)) ∧
      ∀ base ∈ seriesFields (seriesOf t), isAxisBase base = true → base ∈ axisBases := by
  rcases List.mem_append.mp h with h | h
  · unfold axisSeries at h
    dsimp only at h
    split at h
    · cases h
    · obtain rfl := List.mem_singleton.mp h
      exact ⟨rfl, fun base hbase _ => hbase⟩
  · obtain ⟨name, _, rfl⟩ := List.mem_map.mp h
    obtain ⟨hfields, hrows⟩ := seriesFields_group numbered name
    rw [hfields, hrows]
    refine ⟨rfl, fun base hbase haxis => ?_⟩
    have hfilter := (List.mem_filter.mp ((List.mem_insertionSort _).mp hbase)).2
    rw [haxis] at hfilter
    cases hfilter

theorem exists_rawSeries {i : Nat}
    (htext : (numbered.getD base ∅).get? i = some raw) (haxis : isAxisBase base = true → base ∈ axisBases) :
    ∃ t ∈ rawSeries numbered, base ∈ seriesFields (seriesOf t) := by
  cases hbase : isAxisBase base with
  | true =>
    have hindex : i ∈ indices numbered axisBases := mem_indices.mpr ⟨base, haxis hbase, raw, htext⟩
    have hsome : axisSeries numbered =
        some { name := "MEAS_COND_AXIS", columns := "index" :: axisSubfields, rows := rawRows numbered axisBases } :=
      if_neg (List.ne_nil_of_mem hindex)
    refine ⟨_, List.mem_append_left _ (Option.mem_toList.mpr hsome), ?_⟩
    exact haxis hbase
  | false =>
    have hkey : base ∈ numbered.keys := by
      refine Dict.mem_keys_iff.mpr ?_
      unfold Dict.getD at htext
      cases hget : numbered.get? base with
      | some texts => exact ⟨texts, rfl⟩
      | none =>
        rw [hget] at htext
        cases htext
    have hname : groupPrefix base ∈ groupNames numbered := by
      refine (List.mem_insertionSort _).mpr (List.mem_dedup.mpr (List.mem_map.mpr ⟨base, ?_, rfl⟩))
      exact List.mem_filter.mpr ⟨hkey, by rw [hbase]; rfl⟩
    refine ⟨_, List.mem_append_right _ (List.mem_map.mpr ⟨groupPrefix base, hname, rfl⟩), ?_⟩
    rw [(seriesFields_group numbered (groupPrefix base)).1]
    exact (List.mem_insertionSort _).mpr (List.mem_filter.mpr ⟨hkey, by simp [hbase]⟩)

theorem mem_zip_map {α β : Type} {f : α → β} {xs : List α} {x : α} {y : β} :
    (x, y) ∈ xs.zip (xs.map f) ↔ x ∈ xs ∧ f x = y := by
  rw [← List.map_prod_left_eq_zip, List.mem_map]
  constructor
  · rintro ⟨z, hz, h⟩
    obtain ⟨rfl, rfl⟩ := Prod.mk.inj h
    exact ⟨hz, rfl⟩
  · rintro ⟨hx, rfl⟩
    exact ⟨x, hx, rfl⟩

/-- **Cells of a result**: the cell of a field and a number holds the last text under them. -/
theorem addressed_iff {i : Nat} {v : Value} (htext : lastText s.starParams.entries base i = some raw) :
    Addressed (result path s) base i v ↔ (isAxisBase base = true → base ∈ axisBases) ∧ valueOf raw = v := by
  rw [← get?_numberedOf] at htext
  constructor
  · rintro ⟨t, ht, cells, hrow, hcell⟩
    rcases List.mem_append.mp ht with ht | ht
    · obtain ⟨u, hu, rfl⟩ := List.mem_map.mp ht
      obtain ⟨hrows, haxis⟩ := rawSeries_fields hu
      obtain ⟨rawRow, hrawRow, hvalues⟩ := List.mem_map.mp hrow
      rw [hrows] at hrawRow
      obtain ⟨j, _, rfl⟩ := List.mem_map.mp hrawRow
      obtain ⟨hindex, rfl⟩ := List.cons.inj hvalues
      have hij : j = i := Int.ofNat_inj.mp (Value.int.inj hindex)
      subst hij
      rw [List.map_map, mem_zip_map] at hcell
      refine ⟨haxis base hcell.1, ?_⟩
      rw [← hcell.2, Function.comp_apply, htext]
      rfl
    · obtain rfl := List.mem_singleton.mp ht
      obtain ⟨point, _, hvalues⟩ := List.mem_map.mp hrow
      cases (List.cons.inj hvalues).1
  · rintro ⟨haxis, rfl⟩
    obtain ⟨t, ht, hbase⟩ := exists_rawSeries htext haxis
    let row := (i, (seriesFields (seriesOf t)).map (fun base => ((numberedOf s.starParams.entries).getD base ∅).get? i))
    refine ⟨seriesOf t, List.mem_append_left _ (List.mem_map.mpr ⟨t, ht, rfl⟩), row.2.map cellValue, ?_, ?_⟩
    · show rowOf row ∈ t.rows.map rowOf
      refine List.mem_map.mpr ⟨row, ?_, rfl⟩
      rw [(rawSeries_fields ht).1]
      exact List.mem_map.mpr ⟨i, mem_indices.mpr ⟨base, hbase, raw, htext⟩, rfl⟩
    · rw [List.map_map, mem_zip_map, Function.comp_apply, htext]
      exact ⟨hbase, rfl⟩

/-! ## Keys -/

/-- The field that a unit is the unit of. -/
def IsUnitField (owner key : String) : Prop := (owner, key) ∈ unitMapping ∨ owner ++ "_UNIT" = key

/-- The value of a key comes back: in the metadata, as a point, as the unit of a point, or in a cell. -/
def Contributes (r : Parsed) (key raw : String) : Prop :=
  (isFileKey key = true ∧ ∃ v, convertValue raw = .ok v ∧ (key, v) ∈ r.metadata) ∨
  (∃ p ∈ r.points, p.name = key ∧ convertValue raw = .ok p.value) ∨
  (∃ p ∈ r.points, IsUnitField p.name key ∧ p.unit = raw) ∨
  ∃ base i v, numberOf key = some (base, i) ∧ convertValue raw = .ok v ∧ Addressed r base i v

/-- The parameters of a file. -/
def starsOf (content : String) : Dict String String := .ofList (starLines content)

/-- What the value of a key comes back through: a key of the file, a numbered key of a known field whose cell no other text with
another value takes, a point, or a unit that some point has. -/
def Kept (content key raw : String) : Prop :=
  isFileKey key = true ∨
  (∃ base i last, numberOf key = some (base, i) ∧ (isAxisBase base = true → base ∈ axisBases) ∧
    lastText (starLines content) base i = some last ∧ convertValue last = convertValue raw) ∨
  isPointKey (starsOf content) key = true ∨
  ∃ owner, IsUnitField owner key ∧
    ((owner ∈ (starLines content).map Prod.fst ∧ isPointKey (starsOf content) owner = true ∧
        lookupUnit owner (starsOf content) = raw) ∨
      (owner ∈ (hashLines content).map Prod.fst ∧ raw = ""))

theorem mem_metadata_result (he : e ∈ s.starParams.entries)
    (hfile : isFileKey e.1 = true) : (e.1, valueOf e.2) ∈ (result path s).metadata :=
  List.mem_append_left _ (List.mem_map.mpr ⟨e, List.mem_filter.mpr ⟨he, hfile⟩, rfl⟩)

theorem mem_points_result {p : Point} : p ∈ (result path s).points ↔
    (∃ e ∈ s.starParams.entries, isPointKey s.starParams e.1 = true ∧
      { name := e.1, value := valueOf e.2, unit := lookupUnit e.1 s.starParams } = p) ∨
    ∃ e ∈ s.hashParams.entries, { name := e.1, value := valueOf e.2, unit := "" } = p := by
  show p ∈ (pointEntries s).map _ ++ s.hashParams.entries.map _ ↔ _
  rw [List.mem_append, List.mem_map, List.mem_map]
  refine or_congr ?_ Iff.rfl
  unfold pointEntries
  simp only [List.mem_filter, and_assoc]

theorem mem_converted_of_lastText {i : Nat}
    (htext : lastText s.starParams.entries base i = some raw) (haxis : isAxisBase base = true → base ∈ axisBases) :
    raw ∈ converted s := by
  rw [← get?_numberedOf] at htext
  obtain ⟨t, ht, hbase⟩ := exists_rawSeries htext haxis
  refine List.mem_append_right _ (List.mem_flatMap.mpr ⟨t, ht, ?_⟩)
  unfold RawSeries.texts
  rw [(rawSeries_fields ht).1]
  refine List.mem_flatMap.mpr ⟨_, List.mem_map.mpr ⟨i, mem_indices.mpr ⟨base, hbase, raw, htext⟩, rfl⟩, ?_⟩
  exact List.reduceOption_mem_iff.mpr (List.mem_map.mpr ⟨base, hbase, htext⟩)

theorem mem_converted (he : e ∈ s.starParams.entries)
    (h : isFileKey e.1 = true ∨ isPointKey s.starParams e.1 = true) : e.2 ∈ converted s := by
  refine List.mem_append_left _ (List.mem_map.mpr ⟨e, List.mem_append_left _ ?_, rfl⟩)
  rcases h with hfile | hpoint
  · exact List.mem_append_left _ (List.mem_filter.mpr ⟨he, hfile⟩)
  · exact List.mem_append_right _ (List.mem_filter.mpr ⟨he, hpoint⟩)

/-- **Keys**: what the value of a key comes back through. -/
theorem contributes_iff (hreadable : Readable s)
    (hstars : s.starParams = starsOf content) (hentries : s.starParams.entries = starLines content)
    (hhashes : s.hashParams.entries = hashLines content)
    (hkeys : ((starLines content ++ hashLines content).map Prod.fst).Nodup) {key : String}
    (he : (key, raw) ∈ starLines content) : Contributes (result path s) key raw ↔ Kept content key raw := by
  have hapart : key ∉ (hashLines content).map Prod.fst := by
    rw [List.map_append, List.nodup_append] at hkeys
    exact fun hmem => hkeys.2.2 key (List.mem_map.mpr ⟨_, he, rfl⟩) key hmem rfl
  have hconvert : ∀ text ∈ converted s, convertValue text = .ok (valueOf text) :=
    fun text htext => convertValue_ok_iff.mpr ⟨hreadable.value text htext, rfl⟩
  unfold Kept
  rw [← hentries] at he
  rw [← hstars, ← hentries, ← hhashes]
  rw [← hhashes] at hapart
  constructor
  · rintro (⟨hfile, _⟩ | ⟨p, hp, rfl, _⟩ | ⟨p, hp, howner, rfl⟩ | ⟨base, i, v, hnumber, hv, haddressed⟩)
    · exact .inl hfile
    · refine .inr (.inr (.inl ?_))
      rcases mem_points_result.mp hp with ⟨e, _, hpoint, rfl⟩ | ⟨e, hehash, rfl⟩
      · exact hpoint
      · exact absurd (List.mem_map.mpr ⟨e, hehash, rfl⟩) hapart
    · refine .inr (.inr (.inr ⟨p.name, howner, ?_⟩))
      rcases mem_points_result.mp hp with ⟨e, hestar, hpoint, rfl⟩ | ⟨e, hehash, rfl⟩
      · exact .inl ⟨List.mem_map.mpr ⟨e, hestar, rfl⟩, hpoint, rfl⟩
      · exact .inr ⟨List.mem_map.mpr ⟨e, hehash, rfl⟩, rfl⟩
    · refine .inr (.inl ?_)
      obtain ⟨last, hlast⟩ := exists_lastText he hnumber
      obtain ⟨haxis, hvalue⟩ := (addressed_iff hlast).mp haddressed
      refine ⟨base, i, last, hnumber, haxis, hlast, ?_⟩
      rw [hv, hconvert last (mem_converted_of_lastText hlast haxis), hvalue]
  · rintro (hfile | ⟨base, i, last, hnumber, haxis, hlast, hsame⟩ | hpoint | ⟨owner, howner, h⟩)
    · exact .inl ⟨hfile, valueOf raw, hconvert raw (mem_converted he (.inl hfile)), mem_metadata_result he hfile⟩
    · refine .inr (.inr (.inr ⟨base, i, valueOf last, hnumber, ?_, (addressed_iff hlast).mpr ⟨haxis, rfl⟩⟩))
      rw [← hsame, hconvert last (mem_converted_of_lastText hlast haxis)]
    · refine .inr (.inl ⟨_, mem_points_result.mpr (.inl ⟨(key, raw), he, hpoint, rfl⟩), rfl, ?_⟩)
      exact hconvert raw (mem_converted he (.inr hpoint))
    · refine .inr (.inr (.inl ?_))
      rcases h with ⟨hstar, hpoint, hunit⟩ | ⟨hhash, rfl⟩
      · obtain ⟨e, hestar, rfl⟩ := List.mem_map.mp hstar
        exact ⟨_, mem_points_result.mpr (.inl ⟨e, hestar, hpoint, rfl⟩), howner, hunit⟩
      · obtain ⟨e, hehash, rfl⟩ := List.mem_map.mp hhash
        exact ⟨_, mem_points_result.mpr (.inr ⟨e, hehash, rfl⟩), howner, rfl⟩

/-! ## Result -/

/-- Nothing of a file is lost in its result. -/
structure KeepsAll (content : String) (r : Parsed) : Prop where
  stars : ∀ e ∈ starLines content, Contributes r e.1 e.2
  hashes : ∀ e ∈ hashLines content, ∃ p ∈ r.points, p.name = e.1 ∧ convertValue e.2 = .ok p.value
  data : ∃ t, r.series.getLast? = some t ∧
    t.rows = (numericLines content).map (fun point => [.float point.1, .float point.2])

/-- The value of every key comes back through something, and every line of two numbers is one of data. -/
structure Keepable (content : String) : Prop where
  stars : ∀ e ∈ starLines content, Kept content e.1 e.2
  data : ∀ line ∈ splitlines content.toList, isNumericLine (trim line) = true → isXrdDataLine (trim line) = true

/-- The series of the data holds the lines of two numbers if these are the lines of data. -/
theorem keepsData_iff
    (hdata : s.xrdData = (splitlines content.toList).filterMap (fun line => dataPoint (trim line))) :
    (∃ t, (result path s).series.getLast? = some t ∧
        t.rows = (numericLines content).map (fun point => [.float point.1, .float point.2])) ↔
      ∀ line ∈ splitlines content.toList, isNumericLine (trim line) = true → isXrdDataLine (trim line) = true := by
  have hlast : (result path s).series.getLast? = some (xrdSeries s) := List.getLast?_concat
  have hinjective : Function.Injective (fun point : FloatNum × FloatNum => [Value.float point.1, Value.float point.2]) := by
    intro p q h
    obtain ⟨hfirst, hrest⟩ := List.cons.inj h
    exact Prod.ext (Value.float.inj hfirst) (Value.float.inj (List.cons.inj hrest).1)
  have hpoints : s.xrdData = numericLines content ↔
      ∀ line ∈ splitlines content.toList, isNumericLine (trim line) = true → isXrdDataLine (trim line) = true := by
    rw [hdata]
    unfold numericLines
    rw [filterMap_eq_iff fun line point h => (numericPoint_of_dataPoint h).2]
    refine forall₂_congr fun line _ => ?_
    constructor
    · intro h hnumeric
      obtain ⟨point, hpoint⟩ := twoFloats_of_numeric hnumeric
      have hsome := h (Option.isSome_iff_exists.mpr ⟨point, (if_pos hnumeric).trans hpoint⟩)
      obtain ⟨_, hdataPoint⟩ := Option.isSome_iff_exists.mp hsome
      exact (Option.ite_none_right_eq_some.mp hdataPoint).1
    · intro h hsome
      obtain ⟨point, hpoint⟩ := Option.isSome_iff_exists.mp hsome
      obtain ⟨hnumeric, hfloats⟩ := Option.ite_none_right_eq_some.mp hpoint
      exact Option.isSome_iff_exists.mpr ⟨point, (if_pos (h hnumeric)).trans hfloats⟩
  rw [← hpoints, hlast]
  constructor
  · rintro ⟨t, ht, hrows⟩
    obtain rfl := Option.some.inj ht
    exact hinjective.list_map hrows
  · intro h
    exact ⟨xrdSeries s, rfl, congrArg (List.map _) h⟩

theorem contributes_parsed {quote : String → String} {r : Parsed} (h : parseRasRaw quote path content = .ok r)
    (hkeys : ((starLines content ++ hashLines content).map Prod.fst).Nodup)
    (he : e ∈ starLines content) : Contributes r e.1 e.2 ↔ Kept content e.1 e.2 := by
  obtain ⟨s, hscan, hreadable, rfl⟩ := parseRasRaw_ok h
  obtain ⟨hentries, hhashes, _⟩ := scan_fields hscan hkeys
  exact contributes_iff hreadable (foldlM_scanLine_fields hscan).1 hentries hhashes hkeys he

/-- **Nothing of a file is lost** exactly if it can be kept. -/
theorem keepsAll_iff {quote : String → String} {path content : String} {r : Parsed}
    (h : parseRasRaw quote path content = .ok r)
    (hkeys : ((starLines content ++ hashLines content).map Prod.fst).Nodup) : KeepsAll content r ↔ Keepable content := by
  have hkept : ∀ e ∈ starLines content, Contributes r e.1 e.2 ↔ Kept content e.1 e.2 :=
    fun e he => contributes_parsed h hkeys he
  obtain ⟨s, hscan, hreadable, rfl⟩ := parseRasRaw_ok h
  obtain ⟨_, hhashes, hdata⟩ := scan_fields hscan hkeys
  constructor
  · intro hkeeps
    exact ⟨fun e he => (hkept e he).mp (hkeeps.stars e he), (keepsData_iff hdata).mp hkeeps.data⟩
  · intro hkeepable
    refine ⟨fun e he => (hkept e he).mpr (hkeepable.stars e he), fun e he => ?_, (keepsData_iff hdata).mpr hkeepable.data⟩
    rw [← hhashes] at he
    refine ⟨_, mem_points_result.mpr (.inr ⟨e, he, rfl⟩), rfl, ?_⟩
    refine convertValue_ok_iff.mpr ⟨hreadable.value e.2 ?_, rfl⟩
    exact List.mem_append_left _ (List.mem_map.mpr ⟨e, List.mem_append_right _ he, rfl⟩)

/-- A voltage with its unit, the position of an axis, a remark and a line of data. -/
def measured : String :=
  "*FILE_TYPE \"RAS_RAW\"\n*FILE_SYSTEM_NAME \"SmartLabXE\"\n*MEAS_COND_XG_VOLTAGE \"45\"\n" ++
    "*HW_XG_VOLTAGE_UNIT \"kV\"\n*MEAS_COND_AXIS_POSITION-0 \"1.5\"\n#Remark=a\n10.0 1"

theorem keepsAll_iff_measured :
    ∃ r, parseRasRaw id "a.txt" measured = .ok r ∧ (KeepsAll measured r ↔ Keepable measured) := by
  -- the characters of the text, which are not read off the literal again for every line
  have hfirst : "*FILE_TYPE \"RAS_RAW\"\n*FILE_SYSTEM_NAME \"SmartLabXE\"\n*MEAS_COND_XG_VOLTAGE \"45\"\n".toList = _ :=
    String.toList_ofList
  have hsecond : "*HW_XG_VOLTAGE_UNIT \"kV\"\n*MEAS_COND_AXIS_POSITION-0 \"1.5\"\n#Remark=a\n10.0 1".toList = _ :=
    String.toList_ofList
  have hchars : measured.toList = _ := String.toList_append.trans (congrArg₂ _ hfirst hsecond)
  have hsome : (parseRasRaw id "a.txt" measured).toOption.isSome = true := by
    unfold parseRasRaw
    rw [hchars]
    decide +kernel
  have hkeys : ((starLines measured ++ hashLines measured).map Prod.fst).Nodup := by
    unfold starLines hashLines
    rw [hchars]
    decide +kernel
  obtain ⟨r, hr⟩ := Option.isSome_iff_exists.mp hsome
  have h := Evaluation.ok_of_toOption hr
  exact ⟨r, h, keepsAll_iff h hkeys⟩

/-- A unit without a voltage. -/
def unowned : String :=
  "*FILE_TYPE \"RAS_RAW\"\n*FILE_SYSTEM_NAME \"SmartLabXE\"\n*HW_XG_VOLTAGE_UNIT \"kV\"\n10.0 1"

/-- **A unit that is lost**: it gives no point itself, and there is no point that has it. -/
theorem not_keepsAll_unowned : ∃ r, parseRasRaw id "a.txt" unowned = .ok r ∧
    ((starLines unowned ++ hashLines unowned).map Prod.fst).Nodup ∧ ¬ KeepsAll unowned r := by
  have hchars : unowned.toList = _ := String.toList_ofList
  have hsome : (parseRasRaw id "a.txt" unowned).toOption.isSome = true := by
    unfold parseRasRaw
    rw [hchars]
    decide +kernel
  obtain ⟨r, hr⟩ := Option.isSome_iff_exists.mp hsome
  have h := Evaluation.ok_of_toOption hr
  have hkeys : ((starLines unowned ++ hashLines unowned).map Prod.fst).Nodup := by
    unfold starLines hashLines
    rw [hchars]
    decide +kernel
  refine ⟨r, h, hkeys, fun hkeeps => ?_⟩
  have hmem : ("HW_XG_VOLTAGE_UNIT", "kV") ∈ starLines unowned := by
    unfold starLines
    rw [hchars]
    decide +kernel
  have hpoints : ∀ owner ∈ (starLines unowned).map Prod.fst, isPointKey (starsOf unowned) owner = false := by
    unfold starsOf starLines
    rw [hchars]
    decide +kernel
  have hhashes : (hashLines unowned).map Prod.fst = [] := by
    unfold hashLines
    rw [hchars]
    decide +kernel
  rcases (contributes_parsed h hkeys hmem).mp (hkeeps.stars _ hmem) with hfile | ⟨base, i, _, hnumber, _⟩ | hpoint | hunit
  · exact absurd hfile (by decide +kernel)
  · rw [show numberOf "HW_XG_VOLTAGE_UNIT" = none by decide +kernel] at hnumber
    cases hnumber
  · rw [hpoints _ (List.mem_map.mpr ⟨_, hmem, rfl⟩)] at hpoint
    cases hpoint
  · rcases hunit with ⟨owner, _, ⟨howner, hpoint, _⟩ | ⟨hhash, _⟩⟩
    · rw [hpoints owner howner] at hpoint
      cases hpoint
    · rw [hhashes] at hhash
      cases hhash

end Irip.Converters.Xrd
