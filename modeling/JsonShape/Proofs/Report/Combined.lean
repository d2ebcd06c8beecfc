import JsonShape.Proofs.Report.Leaves

/-!
# Several flattened reports in one

Flattened reports are combined as a report is flattened: a path stands where it first comes,
whichever report it comes from, and so does each message under it. Combining the flattened parts of
a report flattens the whole (`pathHash_of_leaves`).
-/

namespace JsonShape

namespace Report

/-- The flattened reports `hashes` in one, from first to last: each path once, where it first comes,
and under it each message once, where it first comes. -/
def combined (hashes : List PathHash) : PathHash :=
  (hashes.flatMap Dict.names).eraseDups.map fun path =>
    (path, (hashes.flatMap fun hash => (hash.get? path).getD []).eraseDups)

theorem messagesUnder_flatMap {β : Type} (f : β → List Leaf) (bs : List β) (path : String) :
    messagesUnder (bs.flatMap f) path = bs.flatMap fun b => messagesUnder (f b) path := by
  rw [messagesUnder, List.filter_flatMap, List.flatMap_assoc]
  rfl

/-- **What is gathered from leaves is combined from what is gathered from portions of them.** -/
theorem gather_flatMap {β : Type} (f : β → List Leaf) (bs : List β) :
    gather (bs.flatMap f) = combined (bs.map fun b => gather (f b)) := by
  have hpaths : ((bs.flatMap f).map Leaf.path).eraseDups =
      ((bs.map fun b => gather (f b)).flatMap Dict.names).eraseDups := by
    rw [List.flatMap_map, List.map_flatMap, ← eraseDups_flatMap]
    simp only [names_gather]
  have hmessages (path : String) : (messagesUnder (bs.flatMap f) path).eraseDups =
      ((bs.map fun b => gather (f b)).flatMap fun hash =>
        (hash.get? path).getD []).eraseDups := by
    rw [List.flatMap_map, messagesUnder_flatMap, ← eraseDups_flatMap]
    simp only [getD_gather]
  rw [combined, ← hpaths, gather]
  exact List.map_congr_left fun path _ => by rw [hmessages]

theorem pathHash_eq_gather {r : Report} (h : r.Formed) : r.pathHash = gather r.leaves := by
  have hcollect := collect_eq_foldl h [] []
  rw [Leaf.below_nil, List.map_id] at hcollect
  exact hcollect.trans (foldl_add r.leaves).1

/-- **A report that has the leaves of others is flattened to what they are flattened to**: `r` need
not be put together of `parts`, as long as its `leaves` are theirs, in this order. -/
theorem pathHash_of_leaves {r : Report} {parts : List Report} (h : r.Formed)
    (hparts : ∀ p ∈ parts, p.Formed) (hleaves : r.leaves = parts.flatMap leaves) :
    r.pathHash = combined (parts.map pathHash) := by
  rw [pathHash_eq_gather h, hleaves, gather_flatMap]
  exact congrArg combined (List.map_congr_left fun p hp => (pathHash_eq_gather (hparts p hp)).symm)

end Report

end JsonShape
