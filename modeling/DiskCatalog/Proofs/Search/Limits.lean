import DiskCatalog.Proofs.Fallible
import DiskCatalog.Proofs.Pattern.Limits
import DiskCatalog.Proofs.Search.Results
import DiskCatalog.Search.Page

/-!
# The limits of searches and their pages

The terms and the offset of a search may keep to the limits of the query engine.  What it finds then
are the entries that its condition holds of, and a page shows a part of them.
-/

namespace DiskCatalog.Search

open Index Pattern

/-- The terms and the offset of a search keep to the limits of the query engine. -/
structure WithinLimits (query : String) (offset : Option Int) : Prop where
  patterns : (Query.condition (Query.parse query)).HasShortPatterns
  depth : (Query.condition (Query.parse query)).depth ≤ Pattern.maxDepth
  offset : Store.isStorable (clampOffset offset)

theorem isStorable_clampOffset_iff {offset : Option Int} :
    Store.isStorable (clampOffset offset) ↔ ∀ n ∈ offset, n < twoTo 63 := by
  have hpositive : (0 : Int) < twoTo 63 := by decide
  cases offset with
  | none => exact iff_of_true rfl (by simp)
  | some n =>
      have hlow : -(twoTo 63 : Int) ≤ max 0 n := by omega
      have hhigh : max 0 n < twoTo 63 ↔ n < twoTo 63 := by omega
      simp [clampOffset, Store.isStorable, hlow, hhigh]

def found (query : String) (entries : List Entry) : List Entry :=
  (entries.filter fun e =>
    (Query.condition (Query.parse query)).holds (some e.name.read)).mergeSort precedes

/-- The part of the entries found that a page shows. -/
def slice (query : String) (limit offset : Option Int) (entries : List Entry) : List Entry :=
  ((found query entries).drop (clampOffset offset).toNat).take (clampLimit limit).toNat

theorem mem_of_mem_slice {query : String} {limit offset : Option Int} {entries : List Entry}
    {e : Entry} (he : e ∈ slice query limit offset entries) : e ∈ entries := by
  have hfound : e ∈ found query entries := List.mem_of_mem_drop (List.mem_of_mem_take he)
  rw [found, List.mem_mergeSort] at hfound
  exact List.mem_of_mem_filter hfound

end DiskCatalog.Search
