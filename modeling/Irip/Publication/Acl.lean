import Mathlib.Data.Set.Basic
import Irip.Research.Entities

/-!
# `Publication.Acl` — who an ACL lets in, and the permission envelope

A result is published under an ACL, and the snapshots behind it bound that ACL by the envelope they were frozen
with. The calculator compares the two by rank. A rank says which of two ACLs is the wider one only where both are
about the same owner and the same department, and says nothing about a list of users.
-/

namespace Irip.Publication

open Research (UserId DeptId SnapshotId)
open Jobs (uuidText)

/-! ## ACLs -/

/-- The values of `acl_type`. The column is text, and any other text is an ACL nobody knows. -/
inductive AclType where
  | ownerOnly
  | explicit
  | tree
  | all
  | other (text : String)
deriving DecidableEq, Repr

/-- The stored text of an ACL. -/
def AclType.value : AclType → String
  | .ownerOnly => "private"
  | .explicit => "explicit"
  | .tree => "tree"
  | .all => "all"
  | .other text => text

/-- The owner and the department an ACL refers to. -/
structure Scope where
  ownerUserId : UserId
  departmentId : DeptId

/-- `_check_result_visible`, with the department tree of the row policy. `visible u d` says that the tree `u` sees
has the department `d`. -/
def AclType.allows (visible : UserId → DeptId → Bool) (scope : Scope) (userIds : List UserId) (u : UserId) :
    AclType → Bool
  | .ownerOnly => u == scope.ownerUserId
  | .tree => u == scope.ownerUserId || visible u scope.departmentId
  | .explicit => userIds.contains u || u == scope.ownerUserId
  | .all => true
  | .other _ => false

/-- The users an ACL lets in. -/
def AclType.audience (visible : UserId → DeptId → Bool) (scope : Scope) (userIds : List UserId) (acl : AclType) :
    Set UserId :=
  {u | acl.allows visible scope userIds u = true}

/-! ## The calculator -/

/-- `permission_envelope` of a snapshot, and its number. -/
structure SnapshotEnvelope where
  snapshotNumber : Nat
  permissionEnvelope : List (String × Json)

/-- An entry of `source_details`. -/
structure SourceDetail where
  snapshotId : SnapshotId
  aclType : AclType
  envelope : Option SnapshotEnvelope -- `none` for a snapshot that is not found

/-- The entry as it is written into an error or a version. -/
def SourceDetail.toJson (d : SourceDetail) : Json :=
  match d.envelope with
  | some e =>
    .obj [("snapshot_id", .str (uuidText d.snapshotId)),
          ("source_name", .str ("快照 #" ++ toString e.snapshotNumber)), ("acl_type", .str d.aclType.value),
          ("envelope", .obj e.permissionEnvelope)]
  | none =>
    .obj [("snapshot_id", .str (uuidText d.snapshotId)), ("acl_type", .str d.aclType.value),
          ("reason", .str "snapshot_not_found")]

structure PermissionEnvelope where
  aclType : AclType
  explicitUserIds : List UserId := []
  sourceDetails : List SourceDetail := []

structure EnvelopeValidationResult where
  valid : Bool
  effectiveAcl : AclType := .ownerOnly
  reason : String := ""
  limitingSources : List SourceDetail := []

namespace PermissionEnvelopeCalculator

/-- `_acl_rank`: the wider the ACL, the higher its rank, and 0 for an unknown one. -/
def aclRank : AclType → Nat
  | .ownerOnly => 0
  | .explicit => 1
  | .tree => 2
  | .all => 3
  | .other _ => 0

/-- The first of two ACLs unless the second ranks below it. -/
def stricter (a b : AclType) : AclType := if aclRank b < aclRank a then b else a

/-- `_intersect_acl_types`: the first ACL of the lowest rank. -/
def intersectAclTypes : List AclType → AclType
  | [] => .all
  | t :: ts => ts.foldl stricter t

/-- `value.get("status", "active") != "active"`, for an entry that is an object. -/
def isInactive : Json → Bool
  | .obj fields =>
    match fields.lookup "status" with
    | none => false
    | some (.str status) => status != "active"
    | some _ => true
  | _ => false

def extractAclFromEnvelope (envelope : List (String × Json)) : AclType :=
  let realEntries := envelope.filter (fun e => !e.1.startsWith "_")
  if realEntries.isEmpty then .all
  else if realEntries.any (fun e => isInactive e.2) then .ownerOnly
  else .tree

/-- What `calculate_envelope` finds of one snapshot: the strictest ACL for one that does not exist. -/
def sourceDetail (getSnapshotEnvelope : SnapshotId → Option SnapshotEnvelope) (id : SnapshotId) : SourceDetail :=
  match getSnapshotEnvelope id with
  | none => { snapshotId := id, aclType := .ownerOnly, envelope := none }
  | some envelope => { snapshotId := id, aclType := extractAclFromEnvelope envelope.permissionEnvelope,
                       envelope := some envelope }

/-- `calculate_envelope`, over what `_get_snapshot_envelope` answers. -/
def calculateEnvelope (getSnapshotEnvelope : SnapshotId → Option SnapshotEnvelope) (ids : List SnapshotId) :
    PermissionEnvelope :=
  let sourceDetails := ids.map (sourceDetail getSnapshotEnvelope)
  { aclType := intersectAclTypes (sourceDetails.map SourceDetail.aclType), sourceDetails := sourceDetails }

/-- `validate_requested_acl`. The list of users is an argument that it does not read. -/
def validateRequestedAcl (requestedAcl : AclType) (_explicitUserIds : List UserId) (envelope : PermissionEnvelope) :
    EnvelopeValidationResult :=
  if aclRank requestedAcl ≤ aclRank envelope.aclType then { valid := true, effectiveAcl := requestedAcl }
  else
    { valid := false, effectiveAcl := envelope.aclType,
      reason := "requested ACL '" ++ requestedAcl.value ++ "' exceeds envelope '" ++ envelope.aclType.value ++ "'",
      limitingSources := envelope.sourceDetails.filter (fun s => aclRank s.aclType < aclRank requestedAcl) }

/-! ## Ranks and users -/

theorem foldl_stricter_le (ts : List AclType) (t : AclType) :
    aclRank (ts.foldl stricter t) ≤ aclRank t ∧ ∀ x ∈ ts, aclRank (ts.foldl stricter t) ≤ aclRank x := by
  induction ts generalizing t with
  | nil => simp
  | cons y ts ih =>
    obtain ⟨hfirst, hrest⟩ := ih (stricter t y)
    have hle : aclRank (stricter t y) ≤ aclRank t ∧ aclRank (stricter t y) ≤ aclRank y := by
      unfold stricter
      split
      · omega
      · omega
    rw [List.foldl_cons]
    refine ⟨by omega, ?_⟩
    intro x hx
    rcases List.mem_cons.mp hx with rfl | hx
    · omega
    · exact hrest x hx

theorem aclRank_intersectAclTypes_le {ts : List AclType} {t : AclType} (ht : t ∈ ts) :
    aclRank (intersectAclTypes ts) ≤ aclRank t := by
  cases ts with
  | nil => exact absurd ht List.not_mem_nil
  | cons y ts =>
    obtain ⟨hfirst, hrest⟩ := foldl_stricter_le ts y
    rcases List.mem_cons.mp ht with rfl | ht
    · exact hfirst
    · exact hrest t ht

/-- An ACL a snapshot's envelope can come to: the owner's, the department's or everybody's. -/
def IsBound (acl : AclType) : Prop := acl = .all ∨ acl = .ownerOnly ∨ acl = .tree

theorem isBound_extractAcl (envelope : List (String × Json)) : IsBound (extractAclFromEnvelope envelope) := by
  unfold extractAclFromEnvelope
  dsimp only
  split
  · exact .inl rfl
  · split
    · exact .inr (.inl rfl)
    · exact .inr (.inr rfl)

/-- **What a comparison of ranks is good for.** Under one scope an ACL that ranks below an envelope lets nobody in
whom the envelope does not, unless by its list. -/
theorem allows_of_rank {visible : UserId → DeptId → Bool} {scope : Scope} {userIds : List UserId} {u : UserId}
    {acl bound : AclType} (hbound : IsBound bound) (hrank : aclRank acl ≤ aclRank bound)
    (hu : acl.allows visible scope userIds u = true) (hlisted : acl = .explicit → u ∉ userIds) :
    bound.allows visible scope [] u = true := by
  have howner : u = scope.ownerUserId → bound.allows visible scope [] u = true := by
    intro hu
    rcases hbound with rfl | rfl | rfl
    · rfl
    · simp [AclType.allows, hu]
    · simp [AclType.allows, hu]
  cases acl with
  | ownerOnly => exact howner (by simpa [AclType.allows] using hu)
  | explicit => exact howner (by simpa [AclType.allows, hlisted rfl] using hu)
  | tree =>
    -- an envelope of at least this rank is the department's or everybody's
    rcases hbound with rfl | rfl | rfl
    · rfl
    · simp [aclRank] at hrank
    · exact hu
  | all =>
    rcases hbound with rfl | rfl | rfl
    · rfl
    · simp [aclRank] at hrank
    · simp [aclRank] at hrank
  | other text => cases hu

theorem aclRank_le_of_valid {getSnapshotEnvelope : SnapshotId → Option SnapshotEnvelope} {ids : List SnapshotId}
    {acl : AclType} {userIds : List UserId}
    (hvalid : (validateRequestedAcl acl userIds (calculateEnvelope getSnapshotEnvelope ids)).valid = true)
    {id : SnapshotId} (hid : id ∈ ids) : aclRank acl ≤ aclRank (sourceDetail getSnapshotEnvelope id).aclType := by
  have hle : aclRank acl ≤ aclRank (calculateEnvelope getSnapshotEnvelope ids).aclType := by
    by_contra hgt
    simp [validateRequestedAcl, hgt] at hvalid
  refine hle.trans (aclRank_intersectAclTypes_le ?_)
  exact List.mem_map_of_mem (List.mem_map_of_mem hid)

end PermissionEnvelopeCalculator

end Irip.Publication
