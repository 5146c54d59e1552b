import Mathlib.Algebra.BigOperators.Group.Finset.Basic
import DiskCatalog.Proofs.Fallible
import DiskCatalog.Store.Reading

/-!
# Links from items to their parents

`Catalog.HasLink` says which links the rows of a catalog hold, and `Catalog.IsBelow` follows them
upwards.  What the reading of the links keeps for an item are exactly its parents.

A search through links meets each item at most once.  Its steps are counted by what the items that
it has not met still weigh: meeting an item takes the weight of that item away.
-/

namespace DiskCatalog.Store.Catalog

/-- A row links an item to a parent.  The number zero stands for no parent. -/
def HasLink (c : Catalog) (item parent : Int) : Prop :=
  ∃ row ∈ c.links, row.item.toInteger = .ok item ∧ row.parent.toInteger = .ok parent ∧ parent ≠ 0

/-- A folder is reached from an item by following one or more links. -/
def IsBelow (c : Catalog) : Int → Int → Prop :=
  Relation.TransGen c.HasLink

namespace ParentLinks

def parentsOf (links : ParentLinks) (item : Int) : List Int :=
  links.getD item []

def count (links : ParentLinks) : Nat :=
  links.foldl (fun n _ above => n + above.length) 0

/-! ## What a search has still to meet -/

/-- The items with parents that have not been met. -/
def unmet (links : ParentLinks) (met : List Int) : Finset Int :=
  links.keys.toFinset \ met.toFinset

theorem parentsOf_eq_nil {links : ParentLinks} {item : Int} (hitem : item ∉ links) :
    links.parentsOf item = [] :=
  Std.TreeMap.getD_eq_fallback hitem

theorem mem_of_mem_parentsOf {links : ParentLinks} {item p : Int}
    (hp : p ∈ links.parentsOf item) : item ∈ links := by
  by_contra hitem
  rw [parentsOf_eq_nil hitem] at hp
  contradiction

theorem mem_unmet {links : ParentLinks} {met : List Int} {item : Int} :
    item ∈ links.unmet met ↔ item ∈ links ∧ item ∉ met := by
  simp [unmet, Std.TreeMap.mem_keys]

/-- Meeting an item takes its weight away; items without parents weigh nothing. -/
theorem sum_unmet_cons (links : ParentLinks) {met : List Int} {item : Int} (weight : Int → Nat)
    (hmet : item ∉ met) (hout : item ∉ links → weight item = 0) :
    (∑ i ∈ links.unmet (item :: met), weight i) + weight item =
      ∑ i ∈ links.unmet met, weight i := by
  have herase : links.unmet (item :: met) = (links.unmet met).erase item := by
    ext i
    simp only [Finset.mem_erase, mem_unmet, List.mem_cons, not_or]
    tauto
  rw [herase]
  by_cases hitem : item ∈ links
  · exact Finset.sum_erase_add _ _ (mem_unmet.mpr ⟨hitem, hmet⟩)
  · have hnot : item ∉ links.unmet met := fun hmem => hitem (mem_unmet.mp hmem).1
    rw [Finset.erase_eq_of_notMem hnot, hout hitem, Nat.add_zero]

theorem unmet_congr {links : ParentLinks} {met met' : List Int}
    (hsame : ∀ i, i ∈ met ↔ i ∈ met') : links.unmet met = links.unmet met' := by
  ext i
  rw [mem_unmet, mem_unmet, hsame]

theorem unmet_subset (links : ParentLinks) (met : List Int) : links.unmet met ⊆ links.unmet [] := by
  intro i hi
  exact mem_unmet.mpr ⟨(mem_unmet.mp hi).1, List.not_mem_nil⟩

theorem card_unmet_nil (links : ParentLinks) : (links.unmet []).card = links.size := by
  rw [unmet, List.toFinset_nil, Finset.sdiff_empty, List.toFinset_card_of_nodup
    Std.TreeMap.nodup_keys, Std.TreeMap.length_keys]

theorem count_eq_sum (links : ParentLinks) :
    links.count = ∑ i ∈ links.unmet [], (links.parentsOf i).length := by
  have hfold : ∀ (l : List (Int × List Int)) (n : Nat),
      l.foldl (fun n link => n + link.2.length) n = n + (l.map (·.2.length)).sum := by
    intro l
    induction l with
    | nil => simp
    | cons link l ih =>
        intro n
        rw [List.foldl_cons, ih, List.map_cons, List.sum_cons]
        omega
  have hvalues : links.toList.map (·.2.length) =
      links.keys.map fun i => (links.parentsOf i).length := by
    rw [← Std.TreeMap.map_fst_toList_eq_keys, List.map_map]
    apply List.map_congr_left
    intro link hlink
    have hget : links[link.1]? = some link.2 :=
      Std.TreeMap.mem_toList_iff_getElem?_eq_some.mp hlink
    simp [parentsOf, Std.TreeMap.getD_eq_getD_getElem?, hget]
  rw [count, Std.TreeMap.foldl_eq_foldl_toList, hfold, Nat.zero_add, hvalues, unmet,
    List.toFinset_nil, Finset.sdiff_empty, List.sum_toFinset _ Std.TreeMap.nodup_keys]

end ParentLinks

/-! ## What the reading of the links keeps -/

theorem mem_insertAscending {n m : Int} {l : List Int} :
    m ∈ insertAscending n l ↔ m = n ∨ m ∈ l := by
  induction l with
  | nil => simp [insertAscending]
  | cons k l ih =>
      rw [insertAscending]
      split
      · simp
      · split
        · rename_i heq
          subst heq
          simp
        · simp only [List.mem_cons, ih]
          tauto

theorem pairwise_insertAscending (n : Int) {l : List Int} (hl : l.Pairwise (· < ·)) :
    (insertAscending n l).Pairwise (· < ·) := by
  induction l with
  | nil => exact List.pairwise_singleton _ n
  | cons m l ih =>
      obtain ⟨hm, hrest⟩ := List.pairwise_cons.mp hl
      rw [insertAscending]
      split
      · rename_i hless
        refine List.pairwise_cons.mpr ⟨List.forall_mem_cons.mpr ⟨hless, fun k hk => ?_⟩, hl⟩
        exact hless.trans (hm k hk)
      · split
        · exact hl
        · refine List.pairwise_cons.mpr ⟨fun k hk => ?_, ih hrest⟩
          rcases mem_insertAscending.mp hk with rfl | hk
          · omega
          · exact hm k hk

theorem wanted_eq_ok_iff {cell : Cell} {n : Int} : wanted cell = .ok n ↔ cell.toInteger = .ok n :=
  mapError_eq_ok_iff

theorem toInteger_null (n : Int) : Cell.null.toInteger ≠ .ok n := by
  simp [Cell.toInteger, Value.toInteger]

theorem wanted?_eq_ok_iff {cell : Cell} {n? : Option Int} :
    wanted? cell = .ok n? ↔ (cell = .null ∧ n? = none) ∨ ∃ n, cell.toInteger = .ok n ∧ n? = some n := by
  have hmap : ∀ cell : Cell, (wanted cell).map some = .ok n? ↔
      ∃ n, cell.toInteger = .ok n ∧ n? = some n := by
    intro cell
    cases hw : wanted cell with
    | error f =>
        have hnot : ∀ n, cell.toInteger ≠ .ok n := by
          intro n hn
          rw [← wanted_eq_ok_iff, hw] at hn
          contradiction
        simp [Except.map, hnot]
    | ok n =>
        have hn := wanted_eq_ok_iff.mp hw
        simp [Except.map, hn, eq_comm]
  cases cell with
  | null =>
      simp only [wanted?, Except.ok.injEq, toInteger_null, false_and, exists_false, or_false,
        true_and]
      exact eq_comm
  | int _ | real _ | text _ | blob _ | broken _ => simp [wanted?, hmap]

theorem mem_parentsOf_addLink {links next : ParentLinks} {row : LinkRow}
    (hadd : addLink links row = .ok next) (item p : Int) :
    p ∈ next.parentsOf item ↔ p ∈ links.parentsOf item ∨
      (row.item.toInteger = .ok item ∧ row.parent.toInteger = .ok p ∧ p ≠ 0) := by
  obtain ⟨-, -, hadd⟩ := bind_eq_ok_iff.mp hadd
  by_cases hnull : row.item = .null
  · rw [if_pos hnull, Except.ok.injEq] at hadd
    subst next
    simp [hnull, toInteger_null]
  · rw [if_neg hnull] at hadd
    obtain ⟨child, hchild, hadd⟩ := bind_eq_ok_iff.mp hadd
    obtain ⟨parent?, hparent, hadd⟩ := bind_eq_ok_iff.mp hadd
    rw [wanted_eq_ok_iff] at hchild
    rw [Except.ok.injEq] at hadd
    subst next
    simp only [ParentLinks.parentsOf, Std.TreeMap.getD_insert, Std.LawfulEqCmp.compare_eq_iff_eq,
      hchild, Except.ok.injEq]
    by_cases hitem : child = item
    · subst hitem
      rcases wanted?_eq_ok_iff.mp hparent with ⟨hnone, rfl⟩ | ⟨q, hq, rfl⟩
      · simp [hnone, toInteger_null]
      · by_cases hzero : q = 0
        · subst hzero
          simp only [if_true, hq, Except.ok.injEq]
          constructor
          · exact Or.inl
          · rintro (hold | ⟨-, rfl, hne⟩)
            · exact hold
            · contradiction
        · simp only [if_true, hzero, if_false, mem_insertAscending, hq, Except.ok.injEq]
          constructor
          · rintro (rfl | hold)
            · exact Or.inr ⟨trivial, rfl, hzero⟩
            · exact Or.inl hold
          · rintro (hold | ⟨-, rfl, -⟩)
            · exact Or.inr hold
            · exact Or.inl rfl
    · simp [hitem]

theorem addLink_ascends {links next : ParentLinks} {row : LinkRow}
    (hadd : addLink links row = .ok next)
    (hlinks : ∀ item, (links.parentsOf item).Pairwise (· < ·)) (item : Int) :
    (next.parentsOf item).Pairwise (· < ·) := by
  obtain ⟨-, -, hadd⟩ := bind_eq_ok_iff.mp hadd
  split at hadd
  · obtain rfl := Except.ok.inj hadd
    exact hlinks item
  · obtain ⟨child, -, hadd⟩ := bind_eq_ok_iff.mp hadd
    obtain ⟨parent?, -, hadd⟩ := bind_eq_ok_iff.mp hadd
    obtain rfl := Except.ok.inj hadd
    simp only [ParentLinks.parentsOf, Std.TreeMap.getD_insert, Std.LawfulEqCmp.compare_eq_iff_eq]
    split
    · cases parent? with
      | none => exact hlinks child
      | some p =>
          dsimp only
          split
          · exact hlinks child
          · exact pairwise_insertAscending p (hlinks child)
    · exact hlinks item

theorem parentsOf_ascends {c : Catalog} {links : ParentLinks} (hlinks : c.parentLinks = .ok links)
    (item : Int) : (links.parentsOf item).Pairwise (· < ·) := by
  refine foldlM_keeps (p := fun links => ∀ item, (links.parentsOf item).Pairwise (· < ·))
    hlinks (fun _ _ _ _ hadd hbefore => addLink_ascends hadd hbefore) (fun i => ?_) item
  rw [ParentLinks.parentsOf_eq_nil Std.TreeMap.not_mem_emptyc]
  exact List.Pairwise.nil

/-- The parents that are kept for an item are those to which a row links it. -/
theorem mem_parentsOf_iff {c : Catalog} {links : ParentLinks} (hlinks : c.parentLinks = .ok links)
    (item p : Int) : p ∈ links.parentsOf item ↔ c.HasLink item p := by
  have hmem : p ∈ links.parentsOf item ↔ p ∈ ParentLinks.parentsOf ∅ item ∨ ∃ row ∈ c.links,
      row.item.toInteger = .ok item ∧ row.parent.toInteger = .ok p ∧ p ≠ 0 :=
    foldlM_iff hlinks fun _ _ _ hadd => mem_parentsOf_addLink hadd item p
  have hempty : p ∉ ParentLinks.parentsOf ∅ item := by
    rw [ParentLinks.parentsOf_eq_nil Std.TreeMap.not_mem_emptyc]
    exact List.not_mem_nil
  rw [hmem, HasLink, or_iff_right hempty]

/-- Which links there are decides what is kept of them. -/
theorem parentsOf_congr {c c' : Catalog} {links links' : ParentLinks}
    (hlinks : c.parentLinks = .ok links) (hlinks' : c'.parentLinks = .ok links')
    (hsame : c'.HasLink = c.HasLink) : links'.parentsOf = links.parentsOf := by
  funext item
  apply (parentsOf_ascends hlinks' item).eq_of_mem_iff (parentsOf_ascends hlinks item)
  intro p
  rw [mem_parentsOf_iff hlinks', mem_parentsOf_iff hlinks, hsame]

end DiskCatalog.Store.Catalog
