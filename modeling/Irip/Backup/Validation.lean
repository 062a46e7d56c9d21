import Mathlib.Data.List.SplitOn
import Irip.Backup.Manifest
import Irip.Base.JsonText

/-!
# `Backup.Validation` — which directories a manifest accepts

`Payload`, `Agree` and `Covered` say of a directory what the checks of both versions establish.
-/

namespace Irip.Backup

/-! ## Files -/

/-- What is known of the digest. -/
structure Digest (sha256 : Bytes → String) : Prop where
  injective : Function.Injective sha256
  ne_empty : ∀ bytes, sha256 bytes ≠ ""

namespace Tree

variable {d d' : Tree} {dir rel p : Path} {bytes : Bytes}

theorem mem_keys_of_read (h : d.read? p = some bytes) : p ∈ d.files.keys := Dict.mem_keys_iff.mpr ⟨bytes, h⟩

theorem mem_filesIn : (rel, bytes) ∈ d.filesIn dir ↔ rel ≠ [] ∧ d.read? (dir ++ rel) = some bytes := by
  unfold filesIn read?
  rw [List.mem_filterMap, Dict.get?_eq_some_iff]
  constructor
  · rintro ⟨⟨q, b⟩, hmem, hfound⟩
    split at hfound
    · next hbelow =>
        obtain ⟨hrel, hbytes⟩ := Prod.mk.inj (Option.some.inj hfound)
        obtain ⟨rest, hrest⟩ := List.isPrefixOf_iff_prefix.mp hbelow.1
        dsimp only at hrel hbytes hrest
        subst hrest
        rw [List.drop_left] at hrel
        subst hrel hbytes
        exact ⟨fun hnil => hbelow.2 (by rw [hnil, List.append_nil]), hmem⟩
    · cases hfound
  · rintro ⟨hne, hmem⟩
    refine ⟨(dir ++ rel, bytes), hmem, ?_⟩
    have hother : dir ++ rel ≠ dir := fun heq => hne (List.append_right_eq_self.mp heq)
    rw [if_pos ⟨List.isPrefixOf_iff_prefix.mpr (List.prefix_append _ _), hother⟩, List.drop_left]

theorem nodup_filesIn (d : Tree) (dir : Path) : ((d.filesIn dir).map Prod.fst).Nodup := by
  have hkeys : d.files.entries.Nodup := List.Nodup.of_map _ d.files.nodup
  have hfiles : (d.filesIn dir).Nodup := by
    refine hkeys.filterMap (fun e e' f hf hf' => ?_)
    have hsame : ∀ {e : Path × Bytes}, f ∈ (if dir.isPrefixOf e.1 ∧ e.1 ≠ dir then some (e.1.drop dir.length, e.2)
        else none) → e = (dir ++ f.1, f.2) := by
      rintro ⟨q, b⟩ hmem
      split at hmem
      · next hbelow =>
          obtain rfl := Option.some.inj hmem
          obtain ⟨rest, hrest⟩ := List.isPrefixOf_iff_prefix.mp hbelow.1
          dsimp only at hrest
          subst hrest
          dsimp only
          rw [List.drop_left]
      · cases hmem
    rw [hsame hf, hsame hf']
  refine hfiles.map_on (fun e he e' he' heq => ?_)
  obtain ⟨rel, b⟩ := e
  obtain ⟨rel', b'⟩ := e'
  dsimp only at heq
  subst heq
  have hread := (mem_filesIn.mp he).2
  rw [(mem_filesIn.mp he').2] at hread
  rw [Option.some.inj hread]

theorem exists_of_read (h : d.read? p = some bytes) : d.exists? p = true :=
  List.any_eq_true.mpr ⟨p, mem_keys_of_read h, List.isPrefixOf_iff_prefix.mpr (List.prefix_refl p)⟩

theorem filesIn_of_not_exists (h : d.exists? dir = false) : d.filesIn dir = [] := by
  rw [List.eq_nil_iff_forall_not_mem]
  rintro ⟨rel, bytes⟩ hmem
  have hread := (mem_filesIn.mp hmem).2
  have hbelow : d.exists? dir = true :=
    List.any_eq_true.mpr ⟨_, mem_keys_of_read hread, List.isPrefixOf_iff_prefix.mpr (List.prefix_append _ _)⟩
  rw [h] at hbelow
  cases hbelow

theorem names_of_mem_filesIn (h : (rel, bytes) ∈ d.filesIn dir) : rel ≠ [] ∧ ∀ name ∈ rel, '/' ∉ name.toList := by
  obtain ⟨hne, hread⟩ := mem_filesIn.mp h
  exact ⟨hne, fun name hname => d.names _ (mem_keys_of_read hread) name (List.mem_append_right _ hname)⟩

end Tree

theorem pathText_inj {p q : Path} (hp : p ≠ [] ∧ ∀ name ∈ p, '/' ∉ name.toList)
    (hq : q ≠ [] ∧ ∀ name ∈ q, '/' ∉ name.toList) (h : pathText p = pathText q) : p = q := by
  have hsplit : ∀ {r : Path}, (r ≠ [] ∧ ∀ name ∈ r, '/' ∉ name.toList) →
      (List.intercalate ['/'] (r.map String.toList)).splitOn '/' = r.map String.toList := by
    intro r hr
    refine List.splitOn_intercalate '/' (fun cs hcs => ?_) (fun hnil => hr.1 (List.map_eq_nil_iff.mp hnil))
    obtain ⟨name, hname, rfl⟩ := List.mem_map.mp hcs
    exact hr.2 name hname
  have hchars := String.ofList_injective h
  have hmaps : p.map String.toList = q.map String.toList := by rw [← hsplit hp, hchars, hsplit hq]
  exact (List.map_injective_iff.mpr (fun _ _ h => String.toList_injective h)) hmaps

theorem eq_of_sorted {α κ : Type} [LinearOrder κ] {key : α → κ} {l m : List α}
    (hl : l.Pairwise (fun a b => key a ≤ key b)) (hm : m.Pairwise (fun a b => key a ≤ key b))
    (hlk : (l.map key).Nodup) (hmk : (m.map key).Nodup) (h : ∀ a, a ∈ l ↔ a ∈ m) : l = m := by
  refine List.Perm.eq_of_pairwise (fun a b ha hb hab hba => ?_) hl hm
    ((List.perm_ext_iff_of_nodup (hlk.of_map _) (hmk.of_map _)).mpr h)
  exact List.inj_on_of_nodup_map hlk ha ((h b).mpr hb) (le_antisymm hab hba)

theorem eq_of_map_eq {α β : Type} {f : α → β} {l m : List α} (h : l.map f = m.map f)
    (hinj : ∀ a ∈ l, ∀ b ∈ m, f a = f b → a = b) : l = m := by
  induction l generalizing m with
  | nil => exact (List.map_eq_nil_iff.mp h.symm).symm
  | cons a l ih =>
    cases m with
    | nil => cases h
    | cons b m =>
      obtain ⟨hhead, htail⟩ := List.cons.inj h
      rw [hinj a List.mem_cons_self b List.mem_cons_self hhead,
        ih htail (fun a ha b hb => hinj a (List.mem_cons_of_mem _ ha) b (List.mem_cons_of_mem _ hb))]

section Digests

variable {sha256 : Bytes → String} {keep : Path → Bool} {d d' : Tree} {dir : Path}

theorem metadataOf_eq (sha256 : Bytes → String) (keep : Path → Bool) (d : Tree) (dir : Path) :
    metadataOf sha256 keep d dir = ((StableSort.sortBy Prod.fst (d.filesIn dir)).filter (fun e => keep e.1)).map
      (fun e => { key := pathText e.1, sha256 := sha256 e.2, size := e.2.length }) := by
  unfold metadataOf
  cases hdir : d.exists? dir with
  | true => rfl
  | false =>
    rw [Tree.filesIn_of_not_exists hdir]
    rfl

theorem metadataOf_eq_iff (hsha : Digest sha256) :
    metadataOf sha256 keep d dir = metadataOf sha256 keep d' dir ↔
      ∀ rel ≠ [], keep rel = true → d.read? (dir ++ rel) = d'.read? (dir ++ rel) := by
  have hmem : ∀ (d : Tree) (e : Path × Bytes),
      e ∈ (StableSort.sortBy Prod.fst (d.filesIn dir)).filter (fun e => keep e.1) ↔
        e ∈ (d.filesIn dir).filter (fun e => keep e.1) := by
    intro d e
    rw [List.mem_filter, List.mem_filter, (StableSort.perm_sortBy (d.filesIn dir)).mem_iff]
  rw [metadataOf_eq, metadataOf_eq]
  constructor
  · intro heq rel hrel hkeep
    have hlists : (StableSort.sortBy Prod.fst (d.filesIn dir)).filter (fun e => keep e.1) =
        (StableSort.sortBy Prod.fst (d'.filesIn dir)).filter (fun e => keep e.1) := by
      refine eq_of_map_eq heq (fun e he e' he' hsame => ?_)
      obtain ⟨hkey, hbytes, -⟩ := ObjectMeta.mk.inj hsame
      have hin := (List.mem_filter.mp ((hmem d e).mp he)).1
      have hin' := (List.mem_filter.mp ((hmem d' e').mp he')).1
      exact Prod.ext (pathText_inj (Tree.names_of_mem_filesIn hin) (Tree.names_of_mem_filesIn hin') hkey)
        (hsha.injective hbytes)
    have hread : ∀ {d d' : Tree} {bytes : Bytes},
        (StableSort.sortBy Prod.fst (d.filesIn dir)).filter (fun e => keep e.1) =
          (StableSort.sortBy Prod.fst (d'.filesIn dir)).filter (fun e => keep e.1) →
        d.read? (dir ++ rel) = some bytes → d'.read? (dir ++ rel) = some bytes := by
      intro d d' bytes hlists hbytes
      have hin : (rel, bytes) ∈ (d.filesIn dir).filter (fun e => keep e.1) :=
        List.mem_filter.mpr ⟨Tree.mem_filesIn.mpr ⟨hrel, hbytes⟩, hkeep⟩
      rw [← hmem d, hlists, hmem d'] at hin
      exact (Tree.mem_filesIn.mp (List.mem_filter.mp hin).1).2
    cases hbytes : d.read? (dir ++ rel) with
    | some bytes => rw [hread hlists hbytes]
    | none =>
      cases hbytes' : d'.read? (dir ++ rel) with
      | none => rfl
      | some bytes' =>
        rw [hread hlists.symm hbytes'] at hbytes
        cases hbytes
  · intro hfiles
    have hsorted : ∀ d : Tree, ((StableSort.sortBy Prod.fst (d.filesIn dir)).filter (fun e => keep e.1)).Pairwise
        (fun a b => a.1 ≤ b.1) := fun d => (StableSort.pairwise_sortBy (d.filesIn dir)).filter _
    have hnodup : ∀ d : Tree,
        (((StableSort.sortBy Prod.fst (d.filesIn dir)).filter (fun e => keep e.1)).map Prod.fst).Nodup := by
      intro d
      have hperm : (StableSort.sortBy Prod.fst (d.filesIn dir)).Perm (d.filesIn dir) := StableSort.perm_sortBy _
      have hsort := (hperm.map Prod.fst).nodup_iff.mpr (d.nodup_filesIn dir)
      exact hsort.sublist (List.filter_sublist.map _)
    refine congrArg _ (eq_of_sorted (hsorted d) (hsorted d') (hnodup d) (hnodup d') (fun e => ?_))
    obtain ⟨rel, bytes⟩ := e
    rw [hmem d, hmem d', List.mem_filter, List.mem_filter, Tree.mem_filesIn, Tree.mem_filesIn]
    refine and_congr_left (fun hkeep => and_congr_right (fun hrel => ?_))
    rw [hfiles rel hrel hkeep]

theorem chars_toJson (m : ObjectMeta) : m.toJson.chars =
    '\x7b' :: (Json.quote "key" ++ ':' :: ' ' :: (Json.quote m.key ++ ',' :: ' ' :: (Json.quote "sha256" ++ ':' :: ' ' ::
      (Json.quote m.sha256 ++ ',' :: ' ' :: (Json.quote "size" ++ ':' :: ' ' :: ((toString (m.size : Int)).toList ++
        ',' :: ' ' :: (Json.quote "size_bytes" ++ ':' :: ' ' :: ((toString (m.size : Int)).toList ++ ['\x7d'])))))))) := by
  have hsize : "size" ≤ "size_bytes" := by decide
  have hsha : "sha256" ≤ "size" := by decide
  have hkey : "key" ≤ "sha256" := by decide
  have hcomma : ", ".toList = [',', ' '] := rfl
  have hcolon : ": ".toList = [':', ' '] := rfl
  unfold ObjectMeta.toJson
  simp only [Json.chars, Json.charsFields, List.insertionSort_cons, List.insertionSort_nil, List.orderedInsert,
    if_pos hsize, if_pos hsha, if_pos hkey, List.map_cons, List.map_nil, Json.joinWith, hcomma, hcolon,
    List.append_assoc, List.cons_append, List.nil_append]

theorem toJson_append_inj {m m' : ObjectMeta} {r t : List Char} (h : m.toJson.chars ++ r = m'.toJson.chars ++ t) :
    m = m' ∧ r = t := by
  have hnumber : ∀ (n : Nat), ∀ c ∈ (toString (n : Int)).toList, Json.numberChar c = true :=
    fun n c hc => Json.numberChar_of_intChar (Json.intChar_of_mem hc)
  rw [chars_toJson, chars_toJson] at h
  simp only [List.cons_append, List.append_assoc, List.cons.injEq, true_and, List.append_cancel_left_eq] at h
  obtain ⟨hkey, hafter⟩ := Json.quote_append_inj h
  simp only [List.cons.injEq, true_and, List.append_cancel_left_eq] at hafter
  obtain ⟨hsha, hafter⟩ := Json.quote_append_inj hafter
  simp only [List.cons.injEq, true_and, List.append_cancel_left_eq] at hafter
  obtain ⟨hsize, hend⟩ := Json.number_append_inj (hnumber m.size) (hnumber m'.size) (Json.stops_cons (by decide) _)
    (Json.stops_cons (by decide) _) hafter
  rw [hsize] at hend
  simp only [List.cons.injEq, true_and, List.append_cancel_left_eq, List.nil_append] at hend
  refine ⟨?_, hend⟩
  obtain ⟨key, sha, size⟩ := m
  obtain ⟨key', sha', size'⟩ := m'
  have hsame : size = size' := Int.ofNat_inj.mp (Json.toString_inj hsize)
  exact ObjectMeta.mk.injEq _ _ _ _ _ _ ▸ ⟨hkey, hsha, hsame⟩

theorem charsItems_eq (xs : List Json) : Json.charsItems xs = xs.map Json.chars := by
  induction xs with
  | nil => rfl
  | cons x xs ih => rw [Json.charsItems, ih, List.map_cons]

theorem items_inj {α : Type} {f : α → List Char} (hinj : ∀ {x y : α} {r t : List Char}, f x ++ r = f y ++ t → x = y ∧ r = t)
    (xs ys : List α) (h : xs.flatMap (fun x => [',', ' '] ++ f x) ++ [']'] =
      ys.flatMap (fun x => [',', ' '] ++ f x) ++ [']']) : xs = ys := by
  induction xs generalizing ys with
  | nil =>
    cases ys with
    | nil => rfl
    | cons y ys => exact absurd (List.cons.inj h).1 (by decide)
  | cons x xs ih =>
    cases ys with
    | nil => exact absurd (List.cons.inj h).1 (by decide)
    | cons y ys =>
      simp only [List.flatMap_cons, List.append_assoc, List.cons_append, List.nil_append, List.cons.injEq,
        true_and] at h
      obtain ⟨rfl, hrest⟩ := hinj h
      rw [ih ys hrest]

/-- **The digest over all objects says what their metadata are.** -/
theorem aggregate_inj (hsha : Digest sha256) {l m : List ObjectMeta} :
    aggregate sha256 l = aggregate sha256 m ↔ l = m := by
  refine ⟨fun h => ?_, fun h => by rw [h]⟩
  have hbytes := hsha.injective h
  have htext : Json.dumps (.arr (l.map ObjectMeta.toJson)) = Json.dumps (.arr (m.map ObjectMeta.toJson)) := by
    refine String.toByteArray_inj.mp (ByteArray.ext ?_)
    exact Array.toList_inj.mp hbytes
  have hchars := String.ofList_injective htext
  simp only [Json.chars, charsItems_eq, List.map_map, List.cons_append, List.cons.injEq, true_and] at hchars
  have hcomma : ", ".toList = [',', ' '] := rfl
  have hbrace : ∀ (x : ObjectMeta) (r : List Char), ∃ r', (Json.chars ∘ ObjectMeta.toJson) x ++ r = '\x7b' :: r' := by
    intro x r
    rw [Function.comp_apply, chars_toJson]
    exact ⟨_, rfl⟩
  rw [hcomma] at hchars
  cases l with
  | nil =>
    cases m with
    | nil => rfl
    | cons y m =>
      rw [List.map_cons, Json.joinWith_cons, List.append_assoc] at hchars
      obtain ⟨r', hr⟩ := hbrace y _
      rw [hr] at hchars
      exact absurd (List.cons.inj hchars).1 (by decide)
  | cons x l =>
    cases m with
    | nil =>
      rw [List.map_cons, Json.joinWith_cons, List.append_assoc] at hchars
      obtain ⟨r', hr⟩ := hbrace x _
      rw [hr] at hchars
      exact absurd (List.cons.inj hchars).1 (by decide)
    | cons y m =>
      rw [List.map_cons, List.map_cons, Json.joinWith_cons, Json.joinWith_cons, List.append_assoc,
        List.append_assoc, List.flatMap_map, List.flatMap_map] at hchars
      obtain ⟨rfl, hrest⟩ := toJson_append_inj hchars
      rw [items_inj toJson_append_inj l m hrest]

/-! ## Checks -/

theorem checkObjects_ok_iff (hsha : Digest sha256) (texts : ObjectTexts) (mayBeEmpty : Bool) :
    checkObjects sha256 texts (d'.exists? dir) (metadataOf sha256 keep d dir).length
        (aggregate sha256 (metadataOf sha256 keep d dir)) mayBeEmpty (metadataOf sha256 keep d' dir) = .ok () ↔
      ∀ rel ≠ [], keep rel = true → d'.read? (dir ++ rel) = d.read? (dir ++ rel) := by
  rw [← metadataOf_eq_iff hsha]
  have hempty : ¬ (mayBeEmpty = true ∧ aggregate sha256 (metadataOf sha256 keep d dir) = "") :=
    fun h => hsha.ne_empty _ h.2
  unfold checkObjects
  dsimp only
  cases hdir : d'.exists? dir with
  | false =>
    have hnone : metadataOf sha256 keep d' dir = [] := by rw [metadataOf, hdir]; rfl
    rw [hnone]
    simp only [Bool.not_false, if_true]
    split
    · next hsome =>
        refine iff_of_false (by simp) (fun heq => ?_)
        rw [← heq] at hsome
        exact absurd hsome (by simp)
    · next hzero =>
        refine iff_of_true rfl (List.eq_nil_of_length_eq_zero ?_).symm
        omega
  | true =>
    simp only [Bool.not_true, if_neg Bool.false_ne_true]
    split
    · next hcount =>
        refine iff_of_false (by simp) (fun heq => hcount ?_)
        rw [heq]
    · split
      · next hdiffer =>
          refine iff_of_false (by simp) (fun heq => hdiffer.2 ?_)
          rw [heq]
      · next hsame =>
          refine iff_of_true rfl ?_
          have hagg := not_and_not_right.mp hsame hempty
          exact (aggregate_inj hsha).mp hagg

theorem reload_eq (now : Datetime) (m : BackupManifest) :
    reload now m = some { m with extra := Json.plainFields m.extra } := by
  have hplain : Json.plainFields m.toDict =
      [("format_version", .int m.formatVersion), ("created_at", .str (DateTime.isoformat m.createdAt.1)),
        ("application_version", .str m.applicationVersion), ("migration_version", .str m.migrationVersion),
        ("database_sha256", .str m.databaseSha256), ("object_count", .int m.objectCount),
        ("objects_sha256", .str m.objectsSha256), ("encrypted", .bool m.encrypted), ("backup_id", .str m.backupId),
        ("extra", .obj (Json.plainFields m.extra))] := rfl
  have htime : createdAtOf now (.str (DateTime.isoformat m.createdAt.1)) = some m.createdAt := by
    have hbound := m.createdAt.2
    have hread : DateTime.fromIsoformat? (DateTime.isoformat m.createdAt.1) = some m.createdAt.1 :=
      DateTime.fromIsoformat?_isoformat (by omega)
    simp only [createdAtOf, hread]
    exact dif_pos hbound
  unfold reload fromDict
  rw [hplain, show Json.get _ "created_at" = .str (DateTime.isoformat m.createdAt.1) from rfl, htime]
  rfl

theorem sha256File_ok_iff {p : Path} {sha : String} :
    sha256File sha256 d p = .ok sha ↔ ∃ bytes, d.read? p = some bytes ∧ sha = sha256 bytes := by
  unfold sha256File
  cases d.read? p with
  | none => simp
  | some bytes => simp [@eq_comm _ sha]

theorem shaOrEmpty_ok {p : Path} {sha : String} (h : shaOrEmpty sha256 d p = .ok sha) :
    d.read? p = none ∧ sha = "" ∨ ∃ bytes, d.read? p = some bytes ∧ sha = sha256 bytes := by
  unfold shaOrEmpty at h
  split at h
  · exact .inr (sha256File_ok_iff.mp h)
  · next hexists =>
      refine .inl ⟨?_, (Except.ok.inj h).symm⟩
      cases hread : d.read? p with
      | none => rfl
      | some bytes => exact absurd (Tree.exists_of_read hread) hexists

theorem validateV1_ok_iff (hsha : Digest sha256) {now : Datetime} {about : About} {m : BackupManifest}
    (h : computeManifest sha256 now d [databaseDumpFilename] [objectsDirname] about = .ok m)
    (extra : List (String × Json)) :
    validateV1 sha256 { m with extra := extra } d' = .ok () ↔
      d'.read? [databaseDumpFilename] = d.read? [databaseDumpFilename] ∧
        ∀ rel ≠ [], isMetadataFile rel = false → d'.read? (objectsDirname :: rel) = d.read? (objectsDirname :: rel) := by
  unfold computeManifest at h
  split at h
  · cases h
  · next sha hsha256 =>
      obtain ⟨bytes, hread, rfl⟩ := sha256File_ok_iff.mp hsha256
      obtain rfl := Except.ok.inj h
      unfold validateV1
      dsimp only
      rw [hread]
      cases hread' : d'.read? [databaseDumpFilename] with
      | none =>
        have hfile : sha256File sha256 d' [databaseDumpFilename] =
            .error (.io (d'.fullPath [databaseDumpFilename])) := by rw [sha256File, hread']
        refine iff_of_false (fun hok => ?_) (fun hand => by cases hand.1)
        rw [hfile] at hok
        split at hok <;> cases hok
      | some bytes' =>
        have hfile : sha256File sha256 d' [databaseDumpFilename] = .ok (sha256 bytes') := by rw [sha256File, hread']
        rw [Tree.exists_of_read hread', hfile]
        simp only [Bool.not_true, if_neg Bool.false_ne_true]
        split
        · next hdiffer =>
            refine iff_of_false (by simp) (fun hand => hdiffer ?_)
            rw [Option.some.inj hand.1]
        · next hsame =>
            have hbytes : bytes' = bytes := hsha.injective (not_not.mp hsame)
            rw [hbytes, and_iff_right rfl]
            refine (@checkObjects_ok_iff sha256 (fun p => !isMetadataFile p) _ _ _ hsha _ _).trans ?_
            refine forall₂_congr (fun rel _ => ?_)
            rw [Bool.not_eq_true']
            rfl

theorem checkWal_ok_iff (hsha : Digest sha256) {wal : Path} {sha : String} (h : shaOrEmpty sha256 d wal = .ok sha) :
    checkWal sha256 sha d' wal = .ok () ↔ d.read? wal = none ∨ d'.read? wal = d.read? wal := by
  unfold checkWal
  rcases shaOrEmpty_ok h with ⟨hread, rfl⟩ | ⟨bytes, hread, rfl⟩
  · rw [if_pos rfl]
    exact iff_of_true rfl (.inl hread)
  · rw [if_neg (hsha.ne_empty bytes), hread]
    simp only [reduceCtorEq, false_or]
    cases hread' : d'.read? wal with
    | none =>
      have hfile : sha256File sha256 d' wal = .error (.io (d'.fullPath wal)) := by rw [sha256File, hread']
      refine iff_of_false (fun hok => ?_) (by simp)
      rw [hfile] at hok
      split at hok <;> cases hok
    | some bytes' =>
      have hfile : sha256File sha256 d' wal = .ok (sha256 bytes') := by rw [sha256File, hread']
      rw [Tree.exists_of_read hread', hfile]
      simp only [Bool.not_true, if_neg Bool.false_ne_true]
      split
      · next hdiffer =>
          refine iff_of_false (by simp) (fun heq => hdiffer ?_)
          rw [Option.some.inj heq]
      · next hsame => exact iff_of_true rfl (congrArg some (hsha.injective (not_not.mp hsame)))

section Extra

variable (base wal dir : Path) (baseSha walSha : String) (mirror : List ObjectMeta) (about : AboutV2)

theorem pitrExtra_base :
    (getOr (Json.plainFields (pitrExtra sha256 d base wal dir baseSha walSha mirror about)) "pg_basebackup_sha256"
      (.str "")).pyStr = baseSha := rfl

theorem pitrExtra_wal :
    (getOr (Json.plainFields (pitrExtra sha256 d base wal dir baseSha walSha mirror about)) "pg_wal_sha256"
      (.str "")).pyStr = walSha := rfl

theorem pitrExtra_count :
    intOf (getOr (Json.plainFields (pitrExtra sha256 d base wal dir baseSha walSha mirror about))
      "minio_mirror_object_count" (.int 0)) = some (mirror.length : Int) := rfl

theorem pitrExtra_mirror :
    (getOr (Json.plainFields (pitrExtra sha256 d base wal dir baseSha walSha mirror about)) "minio_mirror_sha256"
      (.str "")).pyStr = aggregate sha256 mirror := rfl

end Extra

theorem validateV2_ok_iff (hsha : Digest sha256) {now : Datetime} {about : AboutV2} {m : BackupManifest}
    (h : computeManifestV2 sha256 now d [pgBasebackupDirname] [minioMirrorDirname] about = .ok m) :
    validateV2 sha256 { m with extra := Json.plainFields m.extra } d' = .ok () ↔
      ((∃ bytes, d'.read? [pgBasebackupDirname, baseTarGzFilename] = some bytes) ∧
        (d.read? [pgBasebackupDirname, baseTarGzFilename] = none ∨
          d'.read? [pgBasebackupDirname, baseTarGzFilename] = d.read? [pgBasebackupDirname, baseTarGzFilename])) ∧
      (d.read? [pgBasebackupDirname, pgWalTarGzFilename] = none ∨
        d'.read? [pgBasebackupDirname, pgWalTarGzFilename] = d.read? [pgBasebackupDirname, pgWalTarGzFilename]) ∧
      ∀ rel ≠ [], d'.read? (minioMirrorDirname :: rel) = d.read? (minioMirrorDirname :: rel) := by
  unfold computeManifestV2 at h
  dsimp only [List.cons_append, List.nil_append] at h
  split at h
  · cases h
  · cases h
  · next baseSha walSha hbase hwal =>
      obtain rfl := Except.ok.inj h
      have hmirror := @checkObjects_ok_iff sha256 (fun _ => true) d d' [minioMirrorDirname] hsha
        ⟨"minio_mirror", "minio_mirror 目录", "minio_mirror 对象数量", "minio_mirror 聚合 SHA-256 "⟩ true
      simp only [true_implies] at hmirror
      have hwalCheck := @checkWal_ok_iff sha256 d d' hsha _ _ hwal
      unfold validateV2
      dsimp only
      rw [pitrExtra_base, pitrExtra_wal, pitrExtra_count, pitrExtra_mirror]
      cases hread' : d'.read? [pgBasebackupDirname, baseTarGzFilename] with
      | none =>
        have hfile : sha256File sha256 d' [pgBasebackupDirname, baseTarGzFilename] =
            .error (.io (d'.fullPath [pgBasebackupDirname, baseTarGzFilename])) := by rw [sha256File, hread']
        refine iff_of_false (fun hok => ?_) (fun hand => by simp at hand)
        rw [hfile] at hok
        split at hok <;> cases hok
      | some bytes' =>
        have hfile : sha256File sha256 d' [pgBasebackupDirname, baseTarGzFilename] = .ok (sha256 bytes') := by
          rw [sha256File, hread']
        have hbaseCheck : ¬ (baseSha ≠ "" ∧ sha256 bytes' ≠ baseSha) ↔
            d.read? [pgBasebackupDirname, baseTarGzFilename] = none ∨
              some bytes' = d.read? [pgBasebackupDirname, baseTarGzFilename] := by
          rcases shaOrEmpty_ok hbase with ⟨hread, hempty⟩ | ⟨bytes, hread, hdigest⟩
          · simp [hread, hempty]
          · rw [hread, hdigest]
            simp [hsha.ne_empty bytes, hsha.injective.eq_iff]
        rw [Tree.exists_of_read hread', hfile]
        simp only [Bool.not_true, if_neg Bool.false_ne_true]
        rw [and_iff_right (⟨bytes', rfl⟩ : ∃ bytes, some bytes' = some bytes), ← hbaseCheck]
        split
        · next hdiffer => exact iff_of_false (by simp) (fun hand => hand.1 hdiffer)
        · next hsame =>
            rw [and_iff_right hsame, ← hwalCheck]
            split
            · next e hwalError =>
                rw [hwalError]
                simp
            · next hwalOk =>
                rw [hwalOk, and_iff_right rfl]
                exact hmirror

end Digests

/-! ## Exactness -/

/-- The two formats of a backup. -/
inductive Format where
  | v1
  | v2

/-- A manifest that was made from a directory. -/
inductive Built (sha256 : Bytes → String) (d : Tree) : Format → BackupManifest → Prop where
  | v1 {now : Datetime} {about : About} {m : BackupManifest} :
      computeManifest sha256 now d [databaseDumpFilename] [objectsDirname] about = .ok m → Built sha256 d .v1 m
  | v2 {now : Datetime} {about : AboutV2} {m : BackupManifest} :
      computeManifestV2 sha256 now d [pgBasebackupDirname] [minioMirrorDirname] about = .ok m → Built sha256 d .v2 m

/-- `validate(from_json(to_json(m)), d)` succeeds. -/
def Accepts (sha256 : Bytes → String) (now : Datetime) (m : BackupManifest) (d : Tree) : Prop :=
  ∃ m', reload now m = some m' ∧ validate sha256 m' d = .ok ()

/-- The payload files. What stands at the place of the metadata file is one only if the store has an object of that
name. -/
def Payload (d : Tree) : Format → Path → Prop
  | .v1, p => p = [databaseDumpFilename] ∨
      ∃ key ≠ [], p = objectsDirname :: key ∧ (key = [objectsMetadataFilename] → (d.read? p).isSome = true)
  | .v2, p => p = [pgBasebackupDirname, baseTarGzFilename] ∨ p = [pgBasebackupDirname, pgWalTarGzFilename] ∨
      ∃ key ≠ [], p = minioMirrorDirname :: key

/-- The two directories agree on the presence and the bytes of every payload file. -/
def Agree (format : Format) (d d' : Tree) : Prop := ∀ p, Payload d format p → d'.read? p = d.read? p

/-- The digests decide: in the first format a payload file differs that is not called like the metadata file, or all
that are called so agree; in the second format a payload file differs that is compared, or no archive that was
missing from the backup makes the difference. -/
def Covered (d d' : Tree) : Format → Prop
  | .v1 => (∃ p, Payload d .v1 p ∧ isMetadataFile p = false ∧ d'.read? p ≠ d.read? p) ∨
      ∀ p, Payload d .v1 p → isMetadataFile p = true → d'.read? p = d.read? p
  | .v2 => (∃ key ≠ [], d'.read? (minioMirrorDirname :: key) ≠ d.read? (minioMirrorDirname :: key)) ∨
      if (d.read? [pgBasebackupDirname, baseTarGzFilename]).isSome then
        d'.read? [pgBasebackupDirname, baseTarGzFilename] ≠ d.read? [pgBasebackupDirname, baseTarGzFilename] ∨
          (d.read? [pgBasebackupDirname, pgWalTarGzFilename]).isSome ∨
            d'.read? [pgBasebackupDirname, pgWalTarGzFilename] = none
      else
        d'.read? [pgBasebackupDirname, pgWalTarGzFilename] ≠ d.read? [pgBasebackupDirname, pgWalTarGzFilename] ∧
          ((d.read? [pgBasebackupDirname, pgWalTarGzFilename]).isSome ∨
            d'.read? [pgBasebackupDirname, baseTarGzFilename] = none)

section Exactness

variable {sha256 : Bytes → String} {d d' : Tree} {m : BackupManifest}

theorem accepts_v1_iff (hsha : Digest sha256) (now : Datetime) {made : Datetime} {about : About}
    (h : computeManifest sha256 made d [databaseDumpFilename] [objectsDirname] about = .ok m) :
    Accepts sha256 now m d' ↔ ∀ p, Payload d .v1 p → isMetadataFile p = false → d'.read? p = d.read? p := by
  have hversion : m.formatVersion = 1 := by
    unfold computeManifest at h
    split at h
    · cases h
    · obtain rfl := Except.ok.inj h
      rfl
  have hvalidate : Accepts sha256 now m d' ↔
      validateV1 sha256 { m with extra := Json.plainFields m.extra } d' = .ok () := by
    unfold Accepts
    rw [reload_eq]
    constructor
    · rintro ⟨m', hm', hok⟩
      obtain rfl := Option.some.inj hm'
      unfold validate at hok
      rwa [if_pos hversion] at hok
    · intro hok
      refine ⟨_, rfl, ?_⟩
      unfold validate
      rwa [if_pos hversion]
  rw [hvalidate, validateV1_ok_iff hsha h]
  constructor
  · rintro ⟨hdump, hobjects⟩ p (rfl | ⟨key, hkey, rfl, -⟩) hname
    · exact hdump
    · refine hobjects key hkey ?_
      rw [← hname]
      unfold isMetadataFile
      rw [List.getLast?_cons_of_ne_nil hkey]
  · intro hall
    refine ⟨hall _ (.inl rfl) (by decide), fun key hkey hname => hall _ (.inr ⟨key, hkey, rfl, ?_⟩) ?_⟩
    · rintro rfl
      exact absurd hname (by decide)
    · rw [← hname]
      unfold isMetadataFile
      rw [List.getLast?_cons_of_ne_nil hkey]

theorem accepts_v2_iff (hsha : Digest sha256) (now : Datetime) {made : Datetime} {about : AboutV2}
    (h : computeManifestV2 sha256 made d [pgBasebackupDirname] [minioMirrorDirname] about = .ok m) :
    Accepts sha256 now m d' ↔
      ((∃ bytes, d'.read? [pgBasebackupDirname, baseTarGzFilename] = some bytes) ∧
        (d.read? [pgBasebackupDirname, baseTarGzFilename] = none ∨
          d'.read? [pgBasebackupDirname, baseTarGzFilename] = d.read? [pgBasebackupDirname, baseTarGzFilename])) ∧
      (d.read? [pgBasebackupDirname, pgWalTarGzFilename] = none ∨
        d'.read? [pgBasebackupDirname, pgWalTarGzFilename] = d.read? [pgBasebackupDirname, pgWalTarGzFilename]) ∧
      ∀ rel ≠ [], d'.read? (minioMirrorDirname :: rel) = d.read? (minioMirrorDirname :: rel) := by
  have hversion : m.formatVersion = 2 := by
    unfold computeManifestV2 at h
    dsimp only at h
    split at h
    · cases h
    · cases h
    · obtain rfl := Except.ok.inj h
      rfl
  have hother : ¬ m.formatVersion = 1 := by rw [hversion]; decide
  rw [← validateV2_ok_iff hsha h]
  unfold Accepts
  rw [reload_eq]
  constructor
  · rintro ⟨m', hm', hok⟩
    obtain rfl := Option.some.inj hm'
    unfold validate at hok
    rwa [if_neg hother, if_pos hversion] at hok
  · intro hok
    refine ⟨_, rfl, ?_⟩
    unfold validate
    rwa [if_neg hother, if_pos hversion]

theorem agree_v1_iff : Agree .v1 d d' ↔
    (∀ p, Payload d .v1 p → isMetadataFile p = false → d'.read? p = d.read? p) ∧
      ∀ p, Payload d .v1 p → isMetadataFile p = true → d'.read? p = d.read? p := by
  constructor
  · exact fun h => ⟨fun p hp _ => h p hp, fun p hp _ => h p hp⟩
  · rintro ⟨hother, hsame⟩ p hp
    cases hname : isMetadataFile p with
    | false => exact hother p hp hname
    | true => exact hsame p hp hname

theorem agree_v2_iff : Agree .v2 d d' ↔
    d'.read? [pgBasebackupDirname, baseTarGzFilename] = d.read? [pgBasebackupDirname, baseTarGzFilename] ∧
      d'.read? [pgBasebackupDirname, pgWalTarGzFilename] = d.read? [pgBasebackupDirname, pgWalTarGzFilename] ∧
        ∀ key ≠ [], d'.read? (minioMirrorDirname :: key) = d.read? (minioMirrorDirname :: key) := by
  constructor
  · exact fun h => ⟨h _ (.inl rfl), h _ (.inr (.inl rfl)), fun key hkey => h _ (.inr (.inr ⟨key, hkey, rfl⟩))⟩
  · rintro ⟨hbase, hwal, hmirror⟩ p (rfl | rfl | ⟨key, hkey, rfl⟩)
    · exact hbase
    · exact hwal
    · exact hmirror key hkey

/-- **When the validation is exact**: it accepts exactly the directories that agree with the backup on the payload if and
only if the digests decide. -/
theorem validation_exact_iff (hsha : Digest sha256) {format : Format} (hm : Built sha256 d format m) (now : Datetime)
    (d' : Tree) : (Accepts sha256 now m d' ↔ Agree format d d') ↔ Covered d d' format := by
  cases hm with
  | v1 h =>
    rw [accepts_v1_iff hsha now h, agree_v1_iff]
    show _ ↔ (∃ p, _) ∨ _
    rw [iff_self_and, imp_iff_not_or]
    refine or_congr_left ?_
    push Not
    rfl
  | v2 h =>
    rw [accepts_v2_iff hsha now h, agree_v2_iff]
    unfold Covered
    have hmirror : (∃ key ≠ [], d'.read? (minioMirrorDirname :: key) ≠ d.read? (minioMirrorDirname :: key)) ↔
        ¬ ∀ key ≠ [], d'.read? (minioMirrorDirname :: key) = d.read? (minioMirrorDirname :: key) := by
      push Not
      rfl
    rw [hmirror]
    generalize (∀ key ≠ [], d'.read? (minioMirrorDirname :: key) = d.read? (minioMirrorDirname :: key)) = mirror
    generalize d.read? [pgBasebackupDirname, baseTarGzFilename] = base
    generalize d'.read? [pgBasebackupDirname, baseTarGzFilename] = base'
    generalize d.read? [pgBasebackupDirname, pgWalTarGzFilename] = wal
    generalize d'.read? [pgBasebackupDirname, pgWalTarGzFilename] = wal'
    cases base with
    | none =>
      -- the base archive was missing: an untouched backup does not pass, and an added archive does
      cases base' with
      | none =>
        simp only [reduceCtorEq, exists_false, false_and, true_and, false_iff, Option.isSome_none, or_true,
          and_true, if_neg Bool.false_ne_true]
        tauto
      | some bytes' =>
        simp only [reduceCtorEq, true_or, and_true, false_and, iff_false, Option.isSome_none, or_false,
          if_neg Bool.false_ne_true, Option.some.injEq, exists_eq', true_and]
        cases wal with
        | none => simp
        | some walBytes =>
          simp only [reduceCtorEq, false_or, Option.isSome_some, and_true]
          tauto
    | some bytes =>
      simp only [reduceCtorEq, false_or, Option.isSome_some, if_true]
      cases wal with
      | none =>
        simp only [true_or, true_and, Option.isSome_none, Bool.false_eq_true, false_or]
        have hsome : base' = some bytes → ∃ b, base' = some b := fun h => ⟨bytes, h⟩
        tauto
      | some walBytes =>
        simp only [reduceCtorEq, false_or, Option.isSome_some, true_or, or_true]
        have hsome : base' = some bytes → ∃ b, base' = some b := fun h => ⟨bytes, h⟩
        tauto

end Exactness

/-- A digest that writes the bytes out. -/
def written (bytes : Bytes) : String := String.ofList ('#' :: bytes.map (fun b => Char.ofNat b.toNat))

theorem written_digest : Digest written where
  injective bytes bytes' h := by
    have hvalue : ∀ n : Fin 256, (Char.ofNat n).toNat = n := by decide +kernel
    have hinj : Function.Injective (fun b : UInt8 => Char.ofNat b.toNat) := by
      intro b b' hb
      have hnat := congrArg Char.toNat hb
      dsimp only at hnat
      rw [hvalue ⟨b.toNat, b.toNat_lt⟩, hvalue ⟨b'.toNat, b'.toNat_lt⟩] at hnat
      exact UInt8.toNat_inj.mp hnat
    exact List.map_injective_iff.mpr hinj (List.cons.inj (String.ofList_injective h)).2
  ne_empty bytes h := by
    have hchars := congrArg String.toList h
    rw [written, String.toList_ofList] at hchars
    cases hchars

/-- A backup with one object, called like the metadata file but in a directory of its own. -/
def nested (content : Bytes) : Tree where
  root := "/backup"
  files := Dict.ofList [([databaseDumpFilename], [1]), ([objectsDirname, "reports", objectsMetadataFilename], content)]
  names := by
    have hkeys : (Dict.ofList [([databaseDumpFilename], [1]),
        ([objectsDirname, "reports", objectsMetadataFilename], content)]).keys =
          [[databaseDumpFilename], [objectsDirname, "reports", objectsMetadataFilename]] := rfl
    rw [hkeys]
    decide +kernel
  apart := by
    have hkeys : (Dict.ofList [([databaseDumpFilename], [1]),
        ([objectsDirname, "reports", objectsMetadataFilename], content)]).keys =
          [[databaseDumpFilename], [objectsDirname, "reports", objectsMetadataFilename]] := rfl
    rw [hkeys]
    decide +kernel

/-- The manifest of that backup. -/
def nestedManifest : BackupManifest where
  formatVersion := 1
  createdAt := ⟨0, by decide⟩
  applicationVersion := "0.8.0"
  migrationVersion := "0082"
  databaseSha256 := written [1]
  objectCount := 0
  objectsSha256 := aggregate written []

theorem nested_built (content : Bytes) : Built written (nested content) .v1 nestedManifest :=
  @Built.v1 written (nested content) ⟨0, by decide⟩ ⟨"0.8.0", "0082", "", false, []⟩ _ rfl

/-- The backup itself is accepted, and agrees with itself. -/
theorem nested_accepts_itself :
    Accepts written ⟨0, by decide⟩ nestedManifest (nested [7]) ↔ Agree .v1 (nested [7]) (nested [7]) :=
  (validation_exact_iff written_digest (nested_built [7]) ⟨0, by decide⟩ (nested [7])).mpr (.inr (fun _ _ _ => rfl))

/-- An altered object of that name is accepted. -/
theorem altered_object_accepted :
    ¬ ∀ (sha256 : Bytes → String), Digest sha256 → ∀ (d d' : Tree) (format : Format) (m : BackupManifest)
      (now : Datetime), Built sha256 d format m → (Accepts sha256 now m d' ↔ Agree format d d') := by
  intro hall
  have hiff := hall written written_digest (nested [7]) (nested [8]) .v1 nestedManifest ⟨0, by decide⟩ (nested_built [7])
  have hother : ∀ p, isMetadataFile p = false → (nested [8]).read? p = (nested [7]).read? p := by
    intro p hname
    have hread : ∀ content : Bytes, (nested content).read? p =
        if p = [objectsDirname, "reports", objectsMetadataFilename] then some content
        else if p = [databaseDumpFilename] then some [1] else none := by
      intro content
      show ((Dict.empty.set _ _).set _ _).get? p = _
      rw [Dict.get?_set, Dict.get?_set]
      rfl
    have hne : p ≠ [objectsDirname, "reports", objectsMetadataFilename] := by
      rintro rfl
      exact absurd hname (by decide)
    rw [hread, hread, if_neg hne, if_neg hne]
  have haccepts : Accepts written ⟨0, by decide⟩ nestedManifest (nested [8]) := by
    cases nested_built [7] with
    | v1 h => exact (accepts_v1_iff written_digest _ h).mpr (fun p _ hname => hother p hname)
  have hsame := hiff.mp haccepts [objectsDirname, "reports", objectsMetadataFilename]
    (.inr ⟨["reports", objectsMetadataFilename], by decide, rfl, fun h => absurd h (by decide)⟩)
  exact absurd hsame (by decide)

end Irip.Backup
