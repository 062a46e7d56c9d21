import Irip.Base.Run
import Irip.Transform.Components

/-!
# `Transform.Locations` — where the rows of a table come from

A table is to have one location for each of its rows. Along a pipeline a history keeps for each row the position of the
row of the first table it was taken over from, if it was.
-/

namespace Irip.Transform

open Runs

/-! ## Origins -/

/-- What a component does to the positions of rows. -/
inductive Effect where
  | inPlace
  | reject (cols : List String)
  | frame (f : Frame)

/-- For each row that comes out the position of the row it was taken over from. -/
def Effect.origins (rows : List Row) : Effect → List (Option Nat)
  | .inPlace => (List.range rows.length).map some
  | .reject cols => (rows.zipIdx.filter (fun r => isComplete cols r.1)).map (fun r => some r.2)
  | .frame f => f.rows.map Prod.snd

def frameEffect : Except String Frame → Effect
  | .ok f => .frame f
  | .error _ => .inPlace

/-- The table has no rows to bring to a frequency, or no column of the time. -/
def Untimed (table : ObservationTable) (timeColumn : String) : Prop :=
  table.rows = [] ∨ hasColumn table.rows timeColumn = false

instance (table : ObservationTable) (timeColumn : String) : Decidable (Untimed table timeColumn) :=
  inferInstanceAs (Decidable (_ ∨ _))

def effect (pandas : Pandas) (table : ObservationTable) : Component → Effect
  | .missingValues strategy columns _ =>
    if strategy = "reject" then .reject (targetColumns columns table) else .inPlace
  | .resampler timeColumn frequency aggregation valueColumns =>
    if aggregation ∉ aggMethods ∨ Untimed table timeColumn then .inPlace
    else frameEffect (pandas.resample table.rows timeColumn frequency aggregation valueColumns)
  | .timeAlignment timeColumn frequency method valueColumns =>
    if Untimed table timeColumn then .inPlace
    else frameEffect (pandas.align table.rows timeColumn ((freqAliases.lookup frequency).getD frequency) method
      valueColumns)
  | _ => .inPlace

theorem length_origins_reject (cols : List String) (rows : List Row) :
    ((Effect.reject cols).origins rows).length = (rows.filter (isComplete cols)).length := by
  conv_rhs => rw [← List.zipIdx_map_fst 0 rows, List.filter_map, List.length_map]
  rw [Effect.origins, List.length_map]
  rfl

theorem length_forwardFill (cols : List String) (last : Dict String Cell) (rows : List Row) :
    (forwardFill cols last rows).length = rows.length := by
  induction rows generalizing last with
  | nil => rfl
  | cons row rows ih => rw [forwardFill, List.length_cons, List.length_cons, ih]

theorem length_of_mapM {α β ε : Type} {f : α → Except ε β} {as : List α} {bs : List β} (h : as.mapM f = .ok bs) :
    bs.length = as.length := by
  induction as generalizing bs with
  | nil =>
    obtain rfl := Except.ok.inj h
    rfl
  | cons a as ih =>
    rw [List.mapM_cons] at h
    cases ha : f a with
    | error e =>
      rw [ha] at h
      cases h
    | ok b =>
      cases has : as.mapM f with
      | error e =>
        rw [ha, has] at h
        cases h
      | ok bs' =>
        rw [ha, has] at h
        obtain rfl := Except.ok.inj h
        rw [List.length_cons, List.length_cons, ih has]

/-- The effect accounts for the table that comes out: the locations are those of before, and every row has its origin. -/
structure Accounts (table : ObservationTable) (e : Effect) (out : ObservationTable) : Prop where
  locations : out.sourceLocations = table.sourceLocations
  length : out.rows.length = (e.origins table.rows).length

theorem accounts_inPlace {table out : ObservationTable} (hlocs : out.sourceLocations = table.sourceLocations)
    (hlength : out.rows.length = table.rows.length) : Accounts table .inPlace out :=
  ⟨hlocs, by rw [hlength, Effect.origins, List.length_map, List.length_range]⟩

section Execute

variable {pandas : Pandas} {table : ObservationTable} {out : Output}

theorem accounts_missingValues (strategy : String) (columns : Option (List String)) (fillValue : Cell)
    (table : ObservationTable) :
    Accounts table (effect pandas table (.missingValues strategy columns fillValue))
      (missingValues strategy columns fillValue table).observations := by
  simp only [effect]
  unfold missingValues
  dsimp only
  by_cases hreject : strategy = "reject"
  · rw [if_pos hreject, if_pos hreject]
    exact ⟨rfl, (length_origins_reject _ _).symm⟩
  · rw [if_neg hreject, if_neg hreject]
    split
    · exact accounts_inPlace rfl (List.length_map _)
    · split
      · exact accounts_inPlace rfl (length_forwardFill _ _ _)
      · split
        · exact accounts_inPlace rfl (List.length_map _)
        · exact accounts_inPlace rfl rfl

theorem accounts_unitConverter {conversions : List Conversion} (h : unitConverter conversions table = .ok out) :
    Accounts table .inPlace out.observations := by
  unfold unitConverter at h
  dsimp only at h
  split at h
  · cases h
  · next rows hrows =>
      obtain rfl := Except.ok.inj h
      exact accounts_inPlace rfl (length_of_mapM hrows)

theorem accounts_madOutliers {columns : List String} {threshold : Float}
    (h : madOutliers columns threshold table = .ok out) : Accounts table .inPlace out.observations := by
  unfold madOutliers at h
  split at h
  · cases h
  · obtain rfl := Except.ok.inj h
    exact accounts_inPlace rfl (by rw [List.length_map, List.length_zipIdx])

theorem accounts_fieldMapper (mapping : Dict String String) (includeUnmapped : Bool) (table : ObservationTable) :
    Accounts table .inPlace (fieldMapper mapping includeUnmapped table).observations :=
  accounts_inPlace rfl (List.length_map _)

theorem accounts_fromFrame {answer : Except String Frame} (h : fromFrame table answer = .ok out) :
    Accounts table (frameEffect answer) out.observations := by
  cases answer with
  | error message => cases h
  | ok f =>
    obtain rfl := Except.ok.inj h
    exact ⟨rfl, by rw [Frame.records, List.length_map, frameEffect, Effect.origins, List.length_map]⟩

theorem accounts_resampler {timeColumn frequency aggregation : String} {valueColumns : Option (List String)}
    (h : resampler pandas timeColumn frequency aggregation valueColumns table = .ok out) :
    Accounts table (effect pandas table (.resampler timeColumn frequency aggregation valueColumns))
      out.observations := by
  unfold resampler at h
  simp only [effect]
  split at h
  · next hagg =>
      obtain rfl := Except.ok.inj h
      rw [if_pos (.inl hagg)]
      exact accounts_inPlace rfl rfl
  · next hagg =>
      split at h
      · next hrows =>
          obtain rfl := Except.ok.inj h
          rw [if_pos (.inr (.inl hrows))]
          exact accounts_inPlace rfl rfl
      · next hrows =>
          split at h
          · next hcol =>
              obtain rfl := Except.ok.inj h
              rw [if_pos (.inr (.inr (by simpa using hcol)))]
              exact accounts_inPlace rfl rfl
          · next hcol =>
              rw [if_neg]
              · exact accounts_fromFrame h
              · rintro (hnot | hnone | hmissing)
                · exact hagg hnot
                · exact hrows hnone
                · exact hcol (by rw [hmissing]; rfl)

theorem accounts_timeAlignment {timeColumn frequency method : String} {valueColumns : Option (List String)}
    (h : timeAlignment pandas timeColumn frequency method valueColumns table = .ok out) :
    Accounts table (effect pandas table (.timeAlignment timeColumn frequency method valueColumns))
      out.observations := by
  unfold timeAlignment at h
  simp only [effect]
  split at h
  · next hrows =>
      obtain rfl := Except.ok.inj h
      rw [if_pos (.inl hrows)]
      exact accounts_inPlace rfl rfl
  · next hrows =>
      split at h
      · next hcol =>
          obtain rfl := Except.ok.inj h
          rw [if_pos (.inr (by simpa using hcol))]
          exact accounts_inPlace rfl rfl
      · next hcol =>
          rw [if_neg]
          · exact accounts_fromFrame h
          · rintro (hnone | hmissing)
            · exact hrows hnone
            · exact hcol (by rw [hmissing]; rfl)

theorem accounts_execute {component : Component} (h : execute pandas table component = .ok out) :
    Accounts table (effect pandas table component) out.observations := by
  cases component with
  | missingValues strategy columns fillValue =>
    obtain rfl := Except.ok.inj h
    exact accounts_missingValues strategy columns fillValue table
  | unitConverter conversions => exact accounts_unitConverter h
  | madOutliers columns threshold => exact accounts_madOutliers h
  | fieldMapper mapping includeUnmapped =>
    obtain rfl := Except.ok.inj h
    exact accounts_fieldMapper mapping includeUnmapped table
  | resampler timeColumn frequency aggregation valueColumns => exact accounts_resampler h
  | timeAlignment timeColumn frequency method valueColumns => exact accounts_timeAlignment h

end Execute

/-! ## Pipelines -/

/-- A table along a pipeline, with the origins of its rows in the first table. -/
structure Tracked where
  table : ObservationTable
  origins : List (Option Nat)

/-- The origins after two components. -/
def compose (earlier later : List (Option Nat)) : List (Option Nat) :=
  later.map (fun origin => origin.bind (fun j => (earlier[j]?).join))

/-- One component of a pipeline; the pipeline ends where a component raises. -/
def step (pandas : Pandas) (s : Tracked) (component : Component) : Option Tracked :=
  match execute pandas s.table component with
  | .error _ => none
  | .ok out => some ⟨out.observations, compose s.origins ((effect pandas s.table component).origins s.table.rows)⟩

/-- The table gives one location per row. -/
def Located (table : ObservationTable) : Prop := table.sourceLocations.length = table.rows.length

/-- A table at the head of a pipeline. -/
def start (first : ObservationTable) : Tracked := ⟨first, (List.range first.rows.length).map some⟩

/-- The table gives one location per row, and the rows that were taken over from the first table have the locations they
had there. -/
structure Preserved (first : ObservationTable) (s : Tracked) : Prop where
  located : Located s.table
  carried : ∀ i j : Nat, s.origins[i]? = some (some j) → s.table.sourceLocations[i]? = first.sourceLocations[j]?

/-- The effect keeps the locations of a table: nothing is rejected, and a frame has as many rows as the table and
repeats in each place only a row with the location of that place. -/
def Effect.Harmless (s : Tracked) : Effect → Prop
  | .inPlace => True
  | .reject cols => ∀ row ∈ s.table.rows, isComplete cols row = true
  | .frame f => f.rows.length = s.table.rows.length ∧
      ∀ i j : Nat, (f.rows.map Prod.snd)[i]? = some (some j) → (∃ k : Nat, s.origins[j]? = some (some k)) →
        s.table.sourceLocations[i]? = s.table.sourceLocations[j]?

/-- A component that keeps the locations of the table it gets. -/
def Harmless (pandas : Pandas) (t : Transition Tracked Component) : Prop :=
  (effect pandas t.pre.table t.act).Harmless t.pre

/-! ## Single components -/

theorem getElem?_compose {earlier later : List (Option Nat)} {i k : Nat} :
    (compose earlier later)[i]? = some (some k) ↔
      ∃ j, later[i]? = some (some j) ∧ earlier[j]? = some (some k) := by
  unfold compose
  rw [List.getElem?_map]
  cases later[i]? with
  | none => simp
  | some origin =>
    cases origin with
    | none => simp
    | some j => simp [Option.join_eq_some_iff]

theorem compose_range {origins : List (Option Nat)} {n : Nat} (hn : origins.length = n) :
    compose origins ((List.range n).map some) = origins := by
  refine List.ext_getElem? (fun i => ?_)
  unfold compose
  rw [List.map_map, List.getElem?_map]
  rcases Nat.lt_or_ge i n with hi | hi
  · rw [List.getElem?_range hi, List.getElem?_eq_getElem (hn ▸ hi)]
    simp [List.getElem?_eq_getElem (hn ▸ hi : i < origins.length)]
  · rw [List.getElem?_eq_none (by rw [List.length_range]; exact hi), List.getElem?_eq_none (by rw [hn]; exact hi)]
    rfl

theorem origins_reject_of_complete {cols : List String} {rows : List Row}
    (h : ∀ row ∈ rows, isComplete cols row = true) :
    (Effect.reject cols).origins rows = (List.range rows.length).map some := by
  show (rows.zipIdx.filter (fun r => isComplete cols r.1)).map (fun r => some r.2) = _
  rw [List.filter_eq_self.mpr (fun r hr => h r.1 (List.mem_of_getElem? (List.mem_zipIdx_iff_getElem?.mp hr))),
    show (fun r : Row × Nat => some r.2) = some ∘ Prod.snd from rfl, ← List.map_map, List.zipIdx_map_snd,
    List.range_eq_range']

section Effects

variable {first : ObservationTable} {s : Tracked} {e : Effect} {out : ObservationTable}

theorem preserved_iff (h : Preserved first s) (hlength : s.origins.length = s.table.rows.length)
    (hout : Accounts s.table e out) :
    Preserved first ⟨out, compose s.origins (e.origins s.table.rows)⟩ ↔ e.Harmless s := by
  have hsame : e.origins s.table.rows = (List.range s.table.rows.length).map some →
      Preserved first ⟨out, compose s.origins (e.origins s.table.rows)⟩ := by
    intro hrange
    constructor
    · show out.sourceLocations.length = out.rows.length
      rw [hout.locations, hout.length, hrange, List.length_map, List.length_range]
      exact h.located
    · intro i j hij
      show out.sourceLocations[i]? = _
      rw [hout.locations]
      refine h.carried i j ?_
      rw [← hij, hrange]
      show s.origins[i]? = (compose s.origins ((List.range s.table.rows.length).map some))[i]?
      rw [compose_range hlength]
  cases e with
  | inPlace => exact iff_of_true (hsame rfl) trivial
  | reject cols =>
    constructor
    · rintro ⟨hlocated, -⟩
      -- as many rows are left as there are locations, so none was rejected
      have hcount : (s.table.rows.filter (isComplete cols)).length = s.table.rows.length := by
        rw [← length_origins_reject, ← hout.length, ← h.located, ← hout.locations]
        exact hlocated.symm
      exact List.filter_eq_self.mp (List.filter_sublist.eq_of_length hcount)
    · exact fun hcomplete => hsame (origins_reject_of_complete hcomplete)
  | frame f =>
    have hcount : out.rows.length = f.rows.length := by
      rw [hout.length, Effect.origins, List.length_map]
    constructor
    · rintro ⟨hlocated, hcarried⟩
      refine ⟨?_, fun i j hij hj => ?_⟩
      · rw [← hcount, ← h.located, ← hout.locations]
        exact hlocated.symm
      · obtain ⟨k, hk⟩ := hj
        rw [h.carried j k hk, ← hout.locations]
        exact hcarried i k (getElem?_compose.mpr ⟨j, hij, hk⟩)
    · rintro ⟨hrows, hplace⟩
      refine ⟨?_, fun i k hik => ?_⟩
      · show out.sourceLocations.length = out.rows.length
        rw [hout.locations, hcount, hrows]
        exact h.located
      · obtain ⟨j, hij, hk⟩ := getElem?_compose.mp hik
        show out.sourceLocations[i]? = _
        rw [hout.locations, hplace i j hij ⟨k, hk⟩]
        exact h.carried j k hk

end Effects

/-! ## Runs -/

theorem start_preserved {first : ObservationTable} (h : Located first) : Preserved first (start first) := by
  refine ⟨h, fun i j hij => ?_⟩
  unfold start at hij
  rw [List.getElem?_map] at hij
  rcases Nat.lt_or_ge i first.rows.length with hi | hi
  · rw [List.getElem?_range hi] at hij
    rw [Option.some.inj (Option.some.inj hij)]
    rfl
  · rw [List.getElem?_eq_none (by rw [List.length_range]; exact hi)] at hij
    cases hij

/-- **When the locations survive a pipeline**: from a table with one location per row, all tables along a pipeline keep
the locations exactly if every component of it is harmless to the table it gets. -/
theorem locations_preserved_iff (pandas : Pandas) {first : ObservationTable} (hfirst : Located first) {s : Tracked}
    {ts : List (Transition Tracked Component)} (hr : Run (step pandas) (start first) ts s) :
    (∀ t ∈ ts, Preserved first t.post) ↔ ∀ t ∈ ts, Harmless pandas t := by
  refine hr.forall_congr (I := fun s => Preserved first s ∧ s.origins.length = s.table.rows.length) ?_
    ⟨start_preserved hfirst, by rw [start, List.length_map, List.length_range]⟩
  rintro s component s' hstep ⟨hpreserved, hlength⟩
  unfold step at hstep
  split at hstep
  · cases hstep
  · next out hexecute =>
      obtain rfl := Option.some.inj hstep
      have hout := accounts_execute hexecute
      have hiff := preserved_iff hpreserved hlength hout
      refine ⟨hiff, fun hharmless => ⟨hiff.mpr hharmless, ?_⟩⟩
      show (compose s.origins _).length = out.observations.rows.length
      rw [compose, List.length_map, hout.length]

instance (table : ObservationTable) : Decidable (Located table) := inferInstanceAs (Decidable (_ = _))

/-- Two rows of a file, the first without a value. -/
def twoRows : ObservationTable where
  columns := ["d50"]
  rows := [Dict.ofList [("d50", .str "")], Dict.ofList [("d50", .int 7)]]
  sourceLocations := [[("file", "data.csv"), ("row", "2")], [("file", "data.csv"), ("row", "3")]]

/-- A pandas that raises. -/
def unavailable : Pandas := ⟨fun _ _ _ _ _ => .error "", fun _ _ _ _ _ => .error ""⟩

/-- The missing value is filled, so that no row is rejected. -/
theorem filled_rows_keep_locations :
    List.Forall (fun t => Preserved twoRows t.post) (play (step unavailable) (start twoRows)
      [.missingValues "constant" none (.int 1), .missingValues "reject" none .none]) := by
  rw [List.forall_iff_forall_mem]
  refine (@locations_preserved_iff unavailable twoRows rfl _ _ (play_run _ _)).mpr fun t ht => ?_
  rcases List.mem_cons.mp ht with rfl | ht
  · trivial
  · rw [List.mem_singleton.mp ht]
    show ∀ row ∈ _, _
    decide

/-- The row without a value is rejected, and the other one stands at its place. -/
theorem rejected_row_shifts :
    ¬ ∀ (pandas : Pandas) (first : ObservationTable), Located first →
      ∀ (s : Tracked) (ts : List (Transition Tracked Component)),
        Run (step pandas) (start first) ts s → ∀ t ∈ ts, Preserved first t.post := by
  intro hall
  have hlost := hall unavailable twoRows rfl _ _ (play_run _ [.missingValues "reject" none .none]) _
    List.mem_cons_self
  exact absurd hlost.located (by decide)

end Irip.Transform
