import Mathlib.Data.String.Basic
import Irip.Base.JsonText
import Irip.Base.Sha256
import Irip.Publication.Entities

/-!
# `Publication.ContentHash` — what the hash of a published version says of it

`_compute_content_hash`, over a request and the references collected for it, as dictionaries. The keys of an entry are
sorted when it is written, the entries are not: each list of references is hashed in the order in which it came.
-/

namespace Irip.Publication.ContentHash

/-! ## Hash -/

/-- What the hash reads of a `PublishRequest`. -/
structure PublishRequest where
  title : String
  summary : String := ""
  tags : List String := []
  releaseNotes : String := ""

/-- A reference to a version of a product: a dictionary of decoded values. -/
structure VersionRef where
  members : List (String × Json)
  decoded : ∀ m ∈ members, m.2.Decoded

/-- What the hash reads of a `ProductRefCollection`. -/
structure ProductRefCollection where
  datasetVersionRefs : List VersionRef := []
  viewVersionRefs : List VersionRef := []
  insightVersionRefs : List VersionRef := []

/-- The type of the entry of a reference. -/
def entryType : ProductKind → String
  | .dataset => "dataset_version"
  | .view => "view_version"
  | .insight => "insight_version"

/-- The key under which a reference has the id of its product. -/
def idKey : ProductKind → String
  | .dataset => "dataset_id"
  | .view => "view_id"
  | .insight => "insight_id"

/-- The key under which it has the hash: a view is known by its image. -/
def hashKey : ProductKind → String
  | .dataset => "content_hash"
  | .view => "image_content_hash"
  | .insight => "content_hash"

namespace VersionRef

/-- `ref.get(<id>, "")`. -/
def productId (kind : ProductKind) (ref : VersionRef) : Json := Json.getD ref.members (idKey kind) (.str "")

/-- `ref.get("version_number", 0)`. -/
def versionNumber (ref : VersionRef) : Json := Json.getD ref.members "version_number" (.int 0)

/-- `ref.get(<hash>, "")`. -/
def contentHash (kind : ProductKind) (ref : VersionRef) : Json := Json.getD ref.members (hashKey kind) (.str "")

/-- The entry of a reference. -/
def entry (kind : ProductKind) (ref : VersionRef) : Json :=
  .obj [("type", .str (entryType kind)), (idKey kind, ref.productId kind), ("version_number", ref.versionNumber),
        ("content_hash", ref.contentHash kind)]

end VersionRef

/-- The entry of a member of the request. -/
def metaEntry (type : String) (value : Json) : Json := .obj [("type", .str type), ("value", value)]

/-- `sorted(request.tags)`. -/
def sortedTags (tags : List String) : List String := tags.insertionSort (· ≤ ·)

/-- The entries, in the order in which they are appended. -/
def entries (request : PublishRequest) (refs : ProductRefCollection) : List Json :=
  [metaEntry "title" (.str request.title), metaEntry "summary" (.str request.summary),
    metaEntry "tags" (.arr ((sortedTags request.tags).map .str)),
    metaEntry "release_notes" (.str request.releaseNotes)] ++
  (refs.datasetVersionRefs.map (VersionRef.entry .dataset) ++ refs.viewVersionRefs.map (VersionRef.entry .view) ++
    refs.insightVersionRefs.map (VersionRef.entry .insight))

def computeContentHash (sha256 : List Char → String) (request : PublishRequest) (refs : ProductRefCollection) : String :=
  sha256 (Json.compact (.arr (entries request refs)))

/-! ## References -/

/-- A kind of product with an id, a version number and a content hash. -/
structure Reference where
  kind : ProductKind
  productId : Json
  versionNumber : Json
  contentHash : Json

/-- What an entry says of a reference. The order of the keys of a nested object carries no meaning. -/
def VersionRef.reference (kind : ProductKind) (ref : VersionRef) : Reference where
  kind := kind
  productId := (ref.productId kind).sortKeys
  versionNumber := ref.versionNumber.sortKeys
  contentHash := (ref.contentHash kind).sortKeys

namespace ProductRefCollection

/-- The references of a kind. -/
def of (refs : ProductRefCollection) : ProductKind → List VersionRef
  | .dataset => refs.datasetVersionRefs
  | .view => refs.viewVersionRefs
  | .insight => refs.insightVersionRefs

/-- What the entries of a kind say. -/
def referencesOf (refs : ProductRefCollection) (kind : ProductKind) : List Reference :=
  (refs.of kind).map (VersionRef.reference kind)

/-- What all entries say. -/
def references (refs : ProductRefCollection) : List Reference :=
  refs.referencesOf .dataset ++ refs.referencesOf .view ++ refs.referencesOf .insight

/-- The references of a kind all say the same. -/
def OneEach (refs : ProductRefCollection) : Prop :=
  ∀ kind, ∀ r ∈ refs.of kind, ∀ r' ∈ refs.of kind, r.reference kind = r'.reference kind

end ProductRefCollection

/-- The members of an entry in the order of their keys, from what the entry says. -/
def Reference.members (r : Reference) : List (String × Json) :=
  [("type", .str (entryType r.kind)), (idKey r.kind, r.productId), ("version_number", r.versionNumber),
    ("content_hash", r.contentHash)]

theorem sortKeys_entry (kind : ProductKind) (ref : VersionRef) :
    (ref.entry kind).sortKeys = .obj ((ref.reference kind).members.insertionSort (fun p q => p.1 ≤ q.1)) := by
  rw [VersionRef.entry, Json.sortKeys, Json.sortKeysFields_eq]
  simp only [List.map_cons, List.map_nil, Json.sortKeys]
  rfl

theorem perm_of_sortKeys {fs gs : List (String × Json)}
    (h : fs.insertionSort (fun p q => p.1 ≤ q.1) = gs.insertionSort (fun p q => p.1 ≤ q.1)) : fs.Perm gs := by
  have hfs := List.perm_insertionSort (fun p q : String × Json => p.1 ≤ q.1) fs
  rw [h] at hfs
  exact hfs.symm.trans (List.perm_insertionSort _ gs)

theorem reference_of_members {r r' : Reference} (h : r.members.Perm r'.members) : r = r' := by
  obtain ⟨kind, productId, versionNumber, contentHash⟩ := r
  obtain ⟨kind', productId', versionNumber', contentHash'⟩ := r'
  have htype := h.subset (show ("type", Json.str (entryType kind)) ∈ _ from by simp [Reference.members])
  have hkind : kind = kind' := by
    cases kind <;> cases kind' <;> simp [Reference.members, entryType, idKey] at htype ⊢
  subst hkind
  have hid := h.subset (show (idKey kind, productId) ∈ _ from by simp [Reference.members])
  have hversion := h.subset (show ("version_number", versionNumber) ∈ _ from by simp [Reference.members])
  have hhash := h.subset (show ("content_hash", contentHash) ∈ _ from by simp [Reference.members])
  cases kind <;> simp_all [Reference.members, idKey]

/-- **An entry says its reference**, and nothing else. -/
theorem sortKeys_entry_iff {kind kind' : ProductKind} {ref ref' : VersionRef} :
    (ref.entry kind).sortKeys = (ref'.entry kind').sortKeys ↔ ref.reference kind = ref'.reference kind' := by
  rw [sortKeys_entry, sortKeys_entry, Json.obj.injEq]
  constructor
  · intro h
    exact reference_of_members (perm_of_sortKeys h)
  · intro h
    rw [h]

theorem sortKeys_metaEntry {type : String} {value value' : Json} :
    (metaEntry type value).sortKeys = (metaEntry type value').sortKeys ↔ value.sortKeys = value'.sortKeys := by
  simp only [metaEntry, Json.sortKeys, Json.sortKeysFields, Json.obj.injEq]
  constructor
  · intro h
    have hvalue := (perm_of_sortKeys h).subset (show ("value", value.sortKeys) ∈ _ from by simp)
    simpa using hvalue
  · intro h
    rw [h]

/-! ## Text -/

/-- Two publications with the same title, summary, release notes, tags and references, the last two in any order. -/
structure SameContent (request : PublishRequest) (refs : ProductRefCollection) (request' : PublishRequest)
    (refs' : ProductRefCollection) : Prop where
  title : request.title = request'.title
  summary : request.summary = request'.summary
  tags : request.tags.Perm request'.tags
  releaseNotes : request.releaseNotes = request'.releaseNotes
  references : refs.references.Perm refs'.references

/-- The hash of a publication is that of another exactly if they have the same content. -/
def Identifies (sha256 : List Char → String) (request : PublishRequest) (refs : ProductRefCollection) : Prop :=
  ∀ request' refs', computeContentHash sha256 request refs = computeContentHash sha256 request' refs' ↔
    SameContent request refs request' refs'

theorem sortedTags_eq_iff {tags tags' : List String} : sortedTags tags = sortedTags tags' ↔ tags.Perm tags' := by
  constructor
  · intro h
    have htags := List.perm_insertionSort (· ≤ ·) tags
    rw [show List.insertionSort (· ≤ ·) tags = sortedTags tags' from h] at htags
    exact htags.symm.trans (List.perm_insertionSort _ tags')
  · intro h
    have hsorted : (sortedTags tags).Perm (sortedTags tags') :=
      (List.perm_insertionSort _ tags).trans (h.trans (List.perm_insertionSort _ tags').symm)
    exact hsorted.eq_of_pairwise (fun _ _ _ _ => le_antisymm) (List.pairwise_insertionSort _ tags)
      (List.pairwise_insertionSort _ tags')

theorem decoded_entry (kind : ProductKind) (ref : VersionRef) : (ref.entry kind).Decoded := by
  refine .obj _ fun m hm => ?_
  simp only [List.mem_cons, List.not_mem_nil, or_false] at hm
  rcases hm with rfl | rfl | rfl | rfl
  · exact .str _
  · exact Json.decoded_getD ref.decoded _ (.str _)
  · exact Json.decoded_getD ref.decoded _ (.int _)
  · exact Json.decoded_getD ref.decoded _ (.str _)

theorem decoded_metaEntry {type : String} {value : Json} (h : value.Decoded) : (metaEntry type value).Decoded := by
  refine .obj _ fun m hm => ?_
  simp only [List.mem_cons, List.not_mem_nil, or_false] at hm
  rcases hm with rfl | rfl
  · exact .str _
  · exact h

theorem decoded_entries (request : PublishRequest) (refs : ProductRefCollection) :
    (Json.arr (entries request refs)).Decoded := by
  refine .arr _ fun x hx => ?_
  simp only [entries, List.mem_append, List.mem_cons, List.not_mem_nil, or_false, List.mem_map] at hx
  rcases hx with (rfl | rfl | rfl | rfl) | (⟨ref, -, rfl⟩ | ⟨ref, -, rfl⟩) | ⟨ref, -, rfl⟩
  · exact decoded_metaEntry (.str _)
  · exact decoded_metaEntry (.str _)
  · refine decoded_metaEntry (.arr _ fun x hx => ?_)
    obtain ⟨tag, -, rfl⟩ := List.mem_map.mp hx
    exact .str tag
  · exact decoded_metaEntry (.str _)
  · exact decoded_entry .dataset ref
  · exact decoded_entry .view ref
  · exact decoded_entry .insight ref

theorem sortKeys_tags {tags tags' : List String} :
    (Json.arr (tags.map .str)).sortKeys = (Json.arr (tags'.map .str)).sortKeys ↔ tags = tags' := by
  simp only [Json.sortKeys, Json.sortKeysItems_eq, List.map_map, Json.arr.injEq]
  have hinj : Function.Injective (Json.sortKeys ∘ Json.str) := by
    intro s s' h
    simpa [Json.sortKeys] using h
  exact (List.map_injective_iff.mpr hinj).eq_iff

theorem map_entry_iff {ps ps' : List (ProductKind × VersionRef)} :
    (ps.map fun p => (p.2.entry p.1).sortKeys) = ps'.map (fun p => (p.2.entry p.1).sortKeys) ↔
      (ps.map fun p => p.2.reference p.1) = ps'.map (fun p => p.2.reference p.1) := by
  induction ps generalizing ps' with
  | nil => cases ps' <;> simp
  | cons p ps ih =>
    cases ps' with
    | nil => simp
    | cons p' ps' => simp only [List.map_cons, List.cons.injEq, sortKeys_entry_iff, ih]

/-- The references with their kinds, in the order of their entries. -/
def ProductRefCollection.all (refs : ProductRefCollection) : List (ProductKind × VersionRef) :=
  refs.datasetVersionRefs.map (ProductKind.dataset, ·) ++ refs.viewVersionRefs.map (ProductKind.view, ·) ++
    refs.insightVersionRefs.map (ProductKind.insight, ·)

theorem references_eq (refs : ProductRefCollection) : refs.references = refs.all.map (fun p => p.2.reference p.1) := by
  simp only [ProductRefCollection.references, ProductRefCollection.referencesOf, ProductRefCollection.of,
    ProductRefCollection.all, List.map_append, List.map_map]
  rfl

theorem entries_eq (request : PublishRequest) (refs : ProductRefCollection) :
    entries request refs = [metaEntry "title" (.str request.title), metaEntry "summary" (.str request.summary),
      metaEntry "tags" (.arr ((sortedTags request.tags).map .str)),
      metaEntry "release_notes" (.str request.releaseNotes)] ++ refs.all.map (fun p => p.2.entry p.1) := by
  simp only [entries, ProductRefCollection.all, List.map_append, List.map_map]
  rfl

/-- **What the hash says**: the texts, the tags as a multiset, and the references in their order. -/
theorem content_hash_eq_iff {sha256 : List Char → String} (hsha : Function.Injective sha256)
    {request request' : PublishRequest} {refs refs' : ProductRefCollection} :
    computeContentHash sha256 request refs = computeContentHash sha256 request' refs' ↔
      request.title = request'.title ∧ request.summary = request'.summary ∧ request.tags.Perm request'.tags ∧
        request.releaseNotes = request'.releaseNotes ∧ refs.references = refs'.references := by
  unfold computeContentHash
  rw [hsha.eq_iff, Json.compact_inj (decoded_entries _ _) (decoded_entries _ _), entries_eq, entries_eq]
  simp only [Json.sortKeys, Json.sortKeysItems_eq, Json.arr.injEq, List.map_cons, List.cons_append,
    List.nil_append, List.cons.injEq, sortKeys_metaEntry, List.map_map, Json.str.injEq]
  rw [show (Json.sortKeys ∘ fun p : ProductKind × VersionRef => p.2.entry p.1)
      = fun p => (p.2.entry p.1).sortKeys from rfl, map_entry_iff, references_eq, references_eq, ← sortedTags_eq_iff,
    ← sortKeys_tags]
  simp only [Json.sortKeys, Json.sortKeysItems_eq, Json.arr.injEq, List.map_map]

theorem sameContent_of_hash_eq {sha256 : List Char → String} (hsha : Function.Injective sha256)
    {request request' : PublishRequest} {refs refs' : ProductRefCollection}
    (h : computeContentHash sha256 request refs = computeContentHash sha256 request' refs') :
    SameContent request refs request' refs' := by
  obtain ⟨htitle, hsummary, htags, hnotes, hrefs⟩ := (content_hash_eq_iff hsha).mp h
  exact ⟨htitle, hsummary, htags, hnotes, hrefs ▸ List.Perm.refl _⟩

/-! ## Result -/

theorem filter_references (refs : ProductRefCollection) (kind : ProductKind) :
    refs.references.filter (fun r => r.kind = kind) = refs.referencesOf kind := by
  have hkind : ∀ k, (refs.referencesOf k).filter (fun r => r.kind = kind) =
      if k = kind then refs.referencesOf k else [] := by
    intro k
    have hall : ∀ r ∈ refs.referencesOf k, r.kind = k := by
      intro r hr
      obtain ⟨ref, -, rfl⟩ := List.mem_map.mp hr
      rfl
    split
    · next heq =>
        rw [List.filter_eq_self]
        intro r hr
        exact decide_eq_true ((hall r hr).trans heq)
    · next hne =>
        rw [List.filter_eq_nil_iff]
        intro r hr hyes
        exact hne ((hall r hr).symm.trans (of_decide_eq_true hyes))
  unfold ProductRefCollection.references
  rw [List.filter_append, List.filter_append, hkind, hkind, hkind]
  cases kind <;> simp

theorem eq_of_perm_of_same {α : Type} {l m : List α} (hl : ∀ a ∈ l, ∀ b ∈ l, a = b) (h : l.Perm m) : l = m := by
  cases l with
  | nil => exact h.nil_eq
  | cons a l =>
    have hrep : ∀ b ∈ a :: l, b = a := fun b hb => hl b hb a List.mem_cons_self
    rw [List.eq_replicate_iff.mpr ⟨rfl, hrep⟩,
      List.eq_replicate_iff.mpr ⟨h.length_eq.symm, fun b hb => hrep b (h.mem_iff.mpr hb)⟩]

theorem same_of_perm {α β : Type} {f : α → β} {l : List α} (h : ∀ m, l.Perm m → l.map f = m.map f) :
    ∀ a ∈ l, ∀ b ∈ l, f a = f b := by
  have hfirst : ∀ a ∈ l, (l.map f).head? = some (f a) := by
    intro a ha
    obtain ⟨l', hperm⟩ : ∃ l', l.Perm (a :: l') := by
      obtain ⟨s, t, rfl⟩ := List.append_of_mem ha
      exact ⟨s ++ t, List.perm_middle⟩
    rw [h _ hperm]
    rfl
  intro a ha b hb
  have heq := (hfirst a ha).symm.trans (hfirst b hb)
  exact Option.some.inj heq

/-- The collection with other references of a kind. -/
def ProductRefCollection.set (refs : ProductRefCollection) (kind : ProductKind) (ms : List VersionRef) :
    ProductRefCollection :=
  match kind with
  | .dataset => { refs with datasetVersionRefs := ms }
  | .view => { refs with viewVersionRefs := ms }
  | .insight => { refs with insightVersionRefs := ms }

theorem perm_set {refs : ProductRefCollection} {kind : ProductKind} {ms : List VersionRef}
    (h : (refs.of kind).Perm ms) : refs.references.Perm (refs.set kind ms).references := by
  have hmap := h.map (VersionRef.reference kind)
  cases kind with
  | dataset => exact (hmap.append_right _).append_right _
  | view => exact (hmap.append_left _).append_right _
  | insight => exact hmap.append_left _

/-- **The hash identifies the content of a publication** exactly if the references of a kind all say the same. -/
theorem hash_identifies_iff {sha256 : List Char → String} (hsha : Function.Injective sha256) (request : PublishRequest)
    (refs : ProductRefCollection) : Identifies sha256 request refs ↔ refs.OneEach := by
  constructor
  · intro h kind
    apply same_of_perm
    intro ms hperm
    -- the same publication with its references of this kind in another order
    have hhash := (h request (refs.set kind ms)).mpr ⟨rfl, rfl, .refl _, rfl, perm_set hperm⟩
    obtain ⟨-, -, -, -, hrefs⟩ := (content_hash_eq_iff hsha).mp hhash
    have hkind := congrArg (List.filter (fun r : Reference => r.kind = kind)) hrefs
    rw [filter_references, filter_references] at hkind
    cases kind <;> exact hkind
  · intro hone request' refs'
    refine ⟨sameContent_of_hash_eq hsha, fun hsame => ?_⟩
    refine (content_hash_eq_iff hsha).mpr ⟨hsame.title, hsame.summary, hsame.tags, hsame.releaseNotes, ?_⟩
    have hkind : ∀ kind, refs.referencesOf kind = refs'.referencesOf kind := by
      intro kind
      refine eq_of_perm_of_same ?_ ?_
      · intro r hr r' hr'
        obtain ⟨ref, href, rfl⟩ := List.mem_map.mp hr
        obtain ⟨ref', href', rfl⟩ := List.mem_map.mp hr'
        exact hone kind ref href ref' href'
      · have hfilter := hsame.references.filter (fun r => r.kind = kind)
        rwa [filter_references, filter_references] at hfilter
    unfold ProductRefCollection.references
    rw [hkind, hkind, hkind]

/-- A reference to the first version of a dataset. -/
def firstVersion (dataset hash : String) : VersionRef where
  members := [("dataset_id", .str dataset), ("version_number", .int 1), ("content_hash", .str hash)]
  decoded := by simp [Json.Decoded.str, Json.Decoded.int]

def oneDataset : ProductRefCollection := { datasetVersionRefs := [firstVersion "d" "h"] }

theorem hash_identifies_one : Identifies String.ofList { title := "t" } oneDataset := by
  refine (hash_identifies_iff (fun _ _ h => String.ofList_injective h) { title := "t" } oneDataset).mpr ?_
  intro kind r hr r' hr'
  cases kind <;> simp_all [oneDataset, ProductRefCollection.of]

def twoDatasets : ProductRefCollection := { datasetVersionRefs := [firstVersion "d" "h", firstVersion "e" "k"] }

/-- **The order of two datasets changes the hash**, though not the content. -/
theorem hash_of_order : ¬ Identifies Sha256.hexdigest { title := "t" } twoDatasets := by
  intro h
  have hhash := (h { title := "t" } { datasetVersionRefs := [firstVersion "e" "k", firstVersion "d" "h"] }).mpr
    ⟨rfl, rfl, .refl _, rfl, .swap _ _ []⟩
  revert hhash
  decide +kernel

end Irip.Publication.ContentHash
