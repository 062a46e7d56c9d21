import Irip.Base.Base64
import Irip.Base.DateTime
import Irip.Base.JsonRead
import Irip.Base.Paging
import Irip.Jobs.Identity

/-!
# `Common.Pagination` — the cursors of the listings

A cursor is a JSON object under the URL-safe Base64 alphabet, with the sort value `v` and the id that breaks ties.
-/

namespace Irip.Pagination

open Jobs (parseUuid uuidText scalarText)

/-! ## Values -/

/-- The instants of a `datetime`: those of the years 1 to 9999. -/
abbrev Instant := {t : Time // -62135596800000000 ≤ t ∧ t < 253402300800000000}

/-- A UUID, as its number. -/
abbrev Guid := {n : Nat // n < 16 ^ 32}

/-- Instants and ids are ordered as their numbers. -/
instance instLinearOrderInstant : LinearOrder Instant := @Subtype.instLinearOrder Int Int.instLinearOrder _

instance instDecidableLTInstant (t u : Instant) : Decidable (t < u) := Int.decLt t.val u.val

instance instLinearOrderGuid : LinearOrder Guid := @Subtype.instLinearOrder Nat Nat.instLinearOrder _

instance instLinearOrderInstantGuid : LinearOrder (Instant ×ₗ Guid) :=
  @Prod.Lex.instLinearOrder Instant Guid instLinearOrderInstant instLinearOrderGuid

/-- `created_at.isoformat()`. -/
def Instant.text (t : Instant) : String := DateTime.isoformat t.val

/-- `datetime.fromisoformat(text)`. -/
def readInstant (text : String) : Option Instant :=
  (DateTime.fromIsoformat? text).bind fun t =>
    if h : -62135596800000000 ≤ t ∧ t < 253402300800000000 then some ⟨t, h⟩ else none

/-- `str(id)`. -/
def Guid.text (id : Guid) : String := uuidText id.val

/-- `UUID(str(value))`. -/
def readGuid (value : Json) : Option Guid :=
  ((scalarText value).bind parseUuid).bind fun n => if h : n < 16 ^ 32 then some ⟨n, h⟩ else none

@[simp] theorem readInstant_text (t : Instant) : readInstant (Instant.text t) = some t := by
  have hread : DateTime.fromIsoformat? (DateTime.isoformat t.val) = some t.val :=
    DateTime.fromIsoformat?_isoformat (Int.le_trans (by decide) t.property.1)
  unfold readInstant Instant.text
  rw [hread, Option.bind_some, dif_pos t.property]

@[simp] theorem readGuid_text (id : Guid) : readGuid (.str (Guid.text id)) = some id := by
  unfold readGuid Guid.text
  rw [scalarText, Option.bind_some, Jobs.parseUuid_uuidText, Nat.mod_eq_of_lt id.property, Option.bind_some,
    dif_pos id.property]

/-! ## Payloads -/

def toUrl (c : Char) : Char := if c = '+' then '-' else if c = '/' then '_' else c

def fromUrl (c : Char) : Char := if c = '-' then '+' else if c = '_' then '/' else c

/-- `base64.urlsafe_b64encode(json.dumps(payload, separators=(",", ":")).encode("utf-8")).decode("ascii")`. -/
def encodePayload (payload : Json) : String :=
  String.ofList ((Base64.encode (utf8 (String.ofList (Json.raw payload)))).map toUrl)

/-- `base64.urlsafe_b64decode(cursor.encode("ascii"))`. -/
def urlsafeB64decode (cursor : String) : Except String Base64.Bytes := Base64.decode (cursor.toList.map fromUrl)

def loads (raw : Base64.Bytes) : Option Json :=
  (String.fromUTF8? ⟨raw.toArray⟩).bind (fun text => Json.loads text.toList)

theorem fromUrl_toUrl {c : Char} (h : c ∈ Base64.alphabet ∨ c = '=') : fromUrl (toUrl c) = c := by
  rcases h with h | rfl
  · have hall : Base64.alphabet.all (fun c => fromUrl (toUrl c) == c) = true := by decide +kernel
    exact eq_of_beq (List.all_eq_true.mp hall c h)
  · decide

/-- **A payload is read back.** -/
theorem decodePayload_encode {payload : Json} (h : payload.Written) :
    ∃ raw, urlsafeB64decode (encodePayload payload) = .ok raw ∧ loads raw = some payload := by
  refine ⟨utf8 (String.ofList (Json.raw payload)), ?_, ?_⟩
  · unfold urlsafeB64decode encodePayload
    rw [String.toList_ofList, List.map_map, List.map_congr_left (g := id) (fun c hc => ?_), List.map_id,
      Base64.decode_encode]
    exact fromUrl_toUrl (Base64.mem_encode hc)
  · have htext : String.fromUTF8? ⟨(utf8 (String.ofList (Json.raw payload))).toArray⟩ =
        some (String.ofList (Json.raw payload)) := dif_pos (String.ofList (Json.raw payload)).isValidUTF8
    unfold loads
    rw [htext, Option.bind_some, String.toList_ofList, Json.loads_raw h]

theorem written_pair {k l : String} (hne : k ≠ l) {a b : Json} (ha : a.Written) (hb : b.Written) :
    (Json.obj [(k, a), (l, b)]).Written := by
  refine .obj _ (by simpa using hne) fun m hm => ?_
  simp only [List.mem_cons, List.not_mem_nil, or_false] at hm
  rcases hm with rfl | rfl
  · exact ha
  · exact hb

/-! ## Cursors -/

def invalidCursor (detail : String) : AppError where
  code := "invalid_cursor"
  message := s!"分页游标无效：{detail}"
  fields := [("cursor", .str detail)]

structure PageCursor where
  sortValue : Json
  id : Guid

namespace PageCursor

def encode (c : PageCursor) : String := encodePayload (.obj [("v", c.sortValue), ("id", .str (Guid.text c.id))])

def decode (cursor : String) : Except AppError PageCursor :=
  match urlsafeB64decode cursor with
  | .error _ => .error (invalidCursor "base64url 解码失败")
  | .ok raw =>
    match loads raw with
    | none => .error (invalidCursor "JSON 解析失败")
    | some (.obj fields) =>
      match fields.lookup "v", fields.lookup "id" with
      | some v, some id =>
        match readGuid id with
        | none => .error (invalidCursor "id 字段不是合法 UUID")
        | some id => .ok { sortValue := v, id := id }
      | _, _ => .error (invalidCursor "缺少必要字段 v / id")
    | some _ => .error (invalidCursor "缺少必要字段 v / id")

/-- **A cursor is read back**, whatever it stands on: a text, an integer or an object of such values. -/
theorem decode_of_encode (c : PageCursor) (h : c.sortValue.Written) : decode (encode c) = .ok c := by
  have hwritten : (Json.obj [("v", c.sortValue), ("id", .str (Guid.text c.id))]).Written :=
    written_pair (by simp) h (.str _)
  obtain ⟨raw, hraw, hloads⟩ := decodePayload_encode hwritten
  unfold decode encode
  simp only [hraw, hloads, List.lookup_cons, String.reduceBEq, beq_self_eq_true, readGuid_text]

theorem decode_of_encode_zero :
    decode (encode { sortValue := .str "2024-01-01", id := ⟨0, Nat.pow_pos (Nat.succ_pos 15)⟩ }) =
      .ok { sortValue := .str "2024-01-01", id := ⟨0, Nat.pow_pos (Nat.succ_pos 15)⟩ } :=
  decode_of_encode _ (.str _)

end PageCursor

end Irip.Pagination
