import DiskCatalog.Index.FolderSize
import DiskCatalog.Proofs.Store.Links

/-!
# What lies above a file

A climb keeps an invariant: it has visited only what can be reached, and everything that follows a
visited item is visited or still to be looked at.  Each step lowers the number of links that are
left, so the climb empties its stack within its bound and has then visited all that can be reached.
`total` therefore holds for each folder the sizes of the files that reach it, each added once.
-/

namespace DiskCatalog.Index.FolderSize

open Store.Catalog

/-! ## Climbs -/

variable {links : ParentLinks} {item : Int}

/-- An item is reached from another by one or more links. -/
def Reaches (links : ParentLinks) : Int → Int → Prop :=
  Relation.TransGen fun i p => p ∈ links.parentsOf i

/-- What holds all the way through a climb from an item. -/
structure Climb.FromItem (links : ParentLinks) (item : Int) (c : Climb) : Prop where
  nodup : c.visited.Nodup
  item_mem : item ∈ c.visited
  visited : ∀ i ∈ c.visited, i = item ∨ Reaches links item i
  stack : ∀ i ∈ c.stack, Reaches links item i
  covered : ∀ i ∈ c.visited, ∀ p ∈ links.parentsOf i, p ∈ c.visited ∨ p ∈ c.stack

def Climb.remaining (links : ParentLinks) (c : Climb) : Nat :=
  c.stack.length + ∑ i ∈ links.unmet c.visited, (links.parentsOf i).length

theorem Climb.fromItem_start (links : ParentLinks) (item : Int) :
    Climb.FromItem links item ⟨(links.parentsOf item).reverse, [item]⟩ where
  nodup := List.nodup_singleton item
  item_mem := List.mem_singleton_self item
  visited := by
    intro i hi
    exact Or.inl (List.mem_singleton.mp hi)
  stack := by
    intro i hi
    exact Relation.TransGen.single (List.mem_reverse.mp hi)
  covered := by
    intro i hi p hp
    obtain rfl := List.mem_singleton.mp hi
    exact Or.inr (List.mem_reverse.mpr hp)

theorem Climb.FromItem.step {c : Climb} (hc : c.FromItem links item) :
    (c.step links.parentsOf).FromItem links item := by
  obtain ⟨stack, visited⟩ := c
  cases stack with
  | nil => exact hc
  | cons next rest =>
      by_cases hmet : next ∈ visited
      · simp only [Climb.step, List.contains_iff_mem, hmet, if_true]
        constructor
        case nodup => exact hc.nodup
        case item_mem => exact hc.item_mem
        case visited => exact hc.visited
        case stack =>
          intro i hi
          exact hc.stack i (List.mem_cons_of_mem next hi)
        case covered =>
          intro i hi p hp
          -- the item that is dropped is covered, as it has been met before
          rcases hc.covered i hi p hp with hvisited | hstack
          · exact Or.inl hvisited
          · rcases List.mem_cons.mp hstack with rfl | hrest
            · exact Or.inl hmet
            · exact Or.inr hrest
      · have hnext : Reaches links item next := hc.stack next List.mem_cons_self
        simp only [Climb.step, List.contains_iff_mem, hmet, if_false]
        constructor
        case nodup => exact List.nodup_cons.mpr ⟨hmet, hc.nodup⟩
        case item_mem => exact List.mem_cons_of_mem next hc.item_mem
        case visited =>
          intro i hi
          rcases List.mem_cons.mp hi with rfl | hold
          · exact Or.inr hnext
          · exact hc.visited i hold
        case stack =>
          intro i hi
          rcases List.mem_append.mp hi with habove | hrest
          · exact hnext.tail (List.mem_reverse.mp habove)
          · exact hc.stack i (List.mem_cons_of_mem next hrest)
        case covered =>
          intro i hi p hp
          -- a new item puts all its parents onto the stack
          rcases List.mem_cons.mp hi with rfl | hold
          · exact Or.inr (List.mem_append_left rest (List.mem_reverse.mpr hp))
          · rcases hc.covered i hold p hp with hvisited | hstack
            · exact Or.inl (List.mem_cons_of_mem next hvisited)
            · rcases List.mem_cons.mp hstack with rfl | hrest
              · exact Or.inl List.mem_cons_self
              · exact Or.inr (List.mem_append_right _ hrest)

/-- A step uses up one of the links that are left. -/
theorem Climb.remaining_step (links : ParentLinks) {c : Climb} (hstack : c.stack ≠ []) :
    (c.step links.parentsOf).remaining links + 1 = c.remaining links := by
  obtain ⟨stack, visited⟩ := c
  cases stack with
  | nil => contradiction
  | cons next rest =>
      by_cases hmet : next ∈ visited
      · simp only [Climb.step, List.contains_iff_mem, hmet, if_true, Climb.remaining,
          List.length_cons]
        omega
      · -- the links of the item come from the sum onto the stack
        have hsum := ParentLinks.sum_unmet_cons links (fun i => (links.parentsOf i).length) hmet
          (fun hout => by rw [ParentLinks.parentsOf_eq_nil hout, List.length_nil])
        simp only [Climb.step, List.contains_iff_mem, hmet, if_false, Climb.remaining,
          List.length_append, List.length_reverse, List.length_cons]
        omega

theorem Climb.FromItem.run {c : Climb} (hc : c.FromItem links item) {fuel : Nat}
    (hfuel : c.remaining links ≤ fuel) :
    (c.run links.parentsOf fuel).FromItem links item ∧
      (c.run links.parentsOf fuel).stack = [] := by
  induction fuel generalizing c with
  | zero =>
      have hlength : c.stack.length = 0 := by
        unfold Climb.remaining at hfuel
        omega
      exact ⟨hc, List.length_eq_zero_iff.mp hlength⟩
  | succ fuel ih =>
      rw [Climb.run]
      split
      · exact ⟨hc, by assumption⟩
      · rename_i hstack
        have hremaining := Climb.remaining_step links hstack
        exact ih hc.step (by omega)

theorem remaining_start_le (links : ParentLinks) (item : Int) :
    Climb.remaining links ⟨(links.parentsOf item).reverse, [item]⟩ ≤ maxSteps links := by
  have hsum := ParentLinks.sum_unmet_cons links (fun i => (links.parentsOf i).length)
    (List.not_mem_nil (a := item))
    (fun hout => by rw [ParentLinks.parentsOf_eq_nil hout, List.length_nil])
  have hcount : links.count = ∑ i ∈ links.unmet [], (links.parentsOf i).length := links.count_eq_sum
  have hsteps : maxSteps links = 2 * links.count + 1 := rfl
  simp only [Climb.remaining, List.length_reverse]
  omega

/-- The items above an item are those that it reaches, itself apart. -/
theorem mem_above_iff (links : ParentLinks) (item i : Int) :
    i ∈ above links (maxSteps links) item ↔ i ≠ item ∧ Reaches links item i := by
  obtain ⟨hend, hempty⟩ :=
    (Climb.fromItem_start links item).run (remaining_start_le links item)
  have habove : above links (maxSteps links) item =
      ((Climb.run links.parentsOf (maxSteps links)
        ⟨(links.parentsOf item).reverse, [item]⟩).visited).erase item := rfl
  have hclosed : ∀ j, Reaches links item j → j ∈ (Climb.run links.parentsOf (maxSteps links)
      ⟨(links.parentsOf item).reverse, [item]⟩).visited := by
    have hstep : ∀ j ∈ (Climb.run links.parentsOf (maxSteps links)
        ⟨(links.parentsOf item).reverse, [item]⟩).visited, ∀ p ∈ links.parentsOf j,
        p ∈ (Climb.run links.parentsOf (maxSteps links)
          ⟨(links.parentsOf item).reverse, [item]⟩).visited := by
      intro j hj p hp
      have hcovered := hend.covered j hj p hp
      rw [hempty] at hcovered
      exact hcovered.resolve_right List.not_mem_nil
    intro j hreach
    induction hreach with
    | single hlink => exact hstep item hend.item_mem _ hlink
    | tail _ hlink ih => exact hstep _ ih _ hlink
  rw [habove, hend.nodup.mem_erase_iff]
  constructor
  · rintro ⟨hne, hi⟩
    exact ⟨hne, (hend.visited i hi).resolve_left hne⟩
  · rintro ⟨hne, hreach⟩
    exact ⟨hne, hclosed i hreach⟩

theorem nodup_above (links : ParentLinks) (item : Int) :
    (above links (maxSteps links) item).Nodup := by
  obtain ⟨hend, -⟩ := (Climb.fromItem_start links item).run (remaining_start_le links item)
  exact hend.nodup.erase item

/-! ## Totals -/

theorem getElem?_addTo (size : Int) (sizes : Sizes) (i folder : Int) :
    (addTo size sizes i)[folder]? =
      sizes[folder]?.map (· + if i = folder then size else 0) := by
  unfold addTo
  rw [Std.TreeMap.get?_eq_getElem?]
  by_cases heq : i = folder
  · subst heq
    cases hget : sizes[i]? <;> simp [hget]
  · cases hget : sizes[i]? with
    | none => simp [heq]
    | some total => simp [heq, Std.TreeMap.getElem?_insert]

theorem getElem?_foldl_addTo (size : Int) {items : List Int} (hitems : items.Nodup)
    (sizes : Sizes) (folder : Int) :
    (items.foldl (addTo size) sizes)[folder]? =
      sizes[folder]?.map (· + if folder ∈ items then size else 0) := by
  induction items generalizing sizes with
  | nil => simp
  | cons i items ih =>
      obtain ⟨hi, hrest⟩ := List.nodup_cons.mp hitems
      rw [List.foldl_cons, ih hrest, getElem?_addTo, Option.map_map]
      congr 1
      funext total
      by_cases heq : i = folder
      · subst heq
        simp [hi]
      · have hne : folder ≠ i := fun h => heq h.symm
        simp [heq, hne]

open Classical in
/-- What a file adds to a folder. -/
noncomputable def share (links : ParentLinks) (folder : Int) (file : Int × Option Int) : Int :=
  if folder ≠ file.1 ∧ Reaches links file.1 folder then file.2.getD 0 else 0

theorem getElem?_addFile (links : ParentLinks) (sizes : Sizes) (file : Int × Option Int)
    (folder : Int) :
    (addFile links (maxSteps links) sizes file)[folder]? =
      sizes[folder]?.map (· + share links folder file) := by
  obtain ⟨id, size⟩ := file
  cases size with
  | none => simp [addFile, share]
  | some size =>
      by_cases hzero : size = 0
      · subst hzero
        simp [addFile, share]
      · have hshare : share links folder (id, some size) =
            if folder ∈ above links (maxSteps links) id then size else 0 := by
          classical exact if_congr (mem_above_iff links id folder).symm rfl rfl
        rw [hshare, ← getElem?_foldl_addTo size (nodup_above links id)]
        simp [addFile, hzero]

theorem getElem?_start (folders : List Int) (sizes : Sizes) (folder : Int) :
    (folders.foldl (fun sizes folder => sizes.insert folder 0) sizes)[folder]? =
      if folder ∈ folders then some 0 else sizes[folder]? := by
  induction folders generalizing sizes with
  | nil => simp
  | cons f folders ih =>
      rw [List.foldl_cons, ih, Std.TreeMap.getElem?_insert]
      by_cases hmem : folder ∈ folders
      · simp [hmem]
      · by_cases heq : f = folder
        · simp [heq]
        · have hne : folder ≠ f := fun h => heq h.symm
          simp [hmem, heq, hne]

/-- The total of a folder is the sum of what the files add to it. -/
theorem getElem?_total (links : ParentLinks) (files : List (Int × Option Int))
    {folders : List Int} {folder : Int} (hfolder : folder ∈ folders) :
    (total links files folders)[folder]? = some ((files.map (share links folder)).sum) := by
  have hfold : ∀ (files : List (Int × Option Int)) (sizes : Sizes),
      (files.foldl (addFile links (maxSteps links)) sizes)[folder]? =
        sizes[folder]?.map (· + (files.map (share links folder)).sum) := by
    intro files
    induction files with
    | nil => simp
    | cons file files ih =>
        intro sizes
        rw [List.foldl_cons, ih, getElem?_addFile, Option.map_map]
        congr 1
        funext total
        simp [add_assoc]
  rw [total, hfold, getElem?_start, if_pos hfolder]
  simp

end DiskCatalog.Index.FolderSize
