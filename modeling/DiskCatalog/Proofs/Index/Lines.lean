import DiskCatalog.Proofs.Index.DeepestBranch

/-!
# Lines

A line is a way upwards that takes no item twice.  The chain of an item is made of chains settled
before it, which lie along lines of items settled before it, so it lies along a line as well.  Where
a chain is cut at the bound, so is its line.
-/

namespace DiskCatalog.Index.ItemGraph

variable {g : ItemGraph} {bound : Nat} {item p : Int} {above order : List Int} {a : Ancestry}

/-- Items that exist and are no volumes, each above the one before it, and none twice. -/
structure IsLine (g : ItemGraph) (items : List Int) : Prop where
  distinct : items.Nodup
  ascends : items.IsChain fun i p => p ∈ g.parentsOf i
  named : ∀ i ∈ items, g.isNamed i = true
  inside : ∀ i ∈ items, g.isVolume i = false

theorem IsLine.singleton (hnamed : g.isNamed item = true) (hinside : g.isVolume item = false) :
    g.IsLine [item] where
  distinct := List.nodup_singleton item
  ascends := .singleton item
  named := List.forall_mem_singleton.mpr hnamed
  inside := List.forall_mem_singleton.mpr hinside

theorem IsLine.up (hline : g.IsLine (p :: above)) (hparent : p ∈ g.parentsOf item)
    (hnamed : g.isNamed item = true) (hinside : g.isVolume item = false)
    (hnew : item ∉ p :: above) : g.IsLine (item :: p :: above) where
  distinct := List.nodup_cons.mpr ⟨hnew, hline.distinct⟩
  ascends := List.isChain_cons_cons.mpr ⟨hparent, hline.ascends⟩
  named := List.forall_mem_cons.mpr ⟨hnamed, hline.named⟩
  inside := List.forall_mem_cons.mpr ⟨hinside, hline.inside⟩

theorem IsLine.take {items : List Int} (hline : g.IsLine items) (n : Nat) :
    g.IsLine (items.take n) where
  distinct := hline.distinct.sublist (List.take_sublist n items)
  ascends := hline.ascends.take n
  named := fun i hi => hline.named i (List.mem_of_mem_take hi)
  inside := fun i hi => hline.inside i (List.mem_of_mem_take hi)

/-- A chain along a line, the nearest item first: its segments are the names read downwards, and a
volume is one step above the last item. -/
structure Along (g : ItemGraph) (bound : Nat) (items : List Int) (a : Ancestry) : Prop where
  line : g.IsLine items
  segments : a.segments = items.reverse.map g.nameOf
  volume : ∀ v, a.volume = some v → a.depth = items.length ∧
    ∃ top ∈ items.getLast?, v ∈ g.parentsOf top ∧ g.isNamed v = true ∧ g.isVolume v = true
  noVolume : a.volume = none → a.depth + 1 = items.length
  within : a.depth ≤ bound

namespace Along

theorem alone (hnamed : g.isNamed item = true) (hinside : g.isVolume item = false) :
    g.Along bound [item] (.alone (g.nameOf item)) where
  line := .singleton hnamed hinside
  segments := rfl
  volume := by simp [Ancestry.alone]
  noVolume := fun _ => rfl
  within := Nat.zero_le bound

theorem below (hbound : 1 ≤ bound) (hnamed : g.isNamed item = true)
    (hinside : g.isVolume item = false) (hparent : p ∈ g.parentsOf item)
    (hpnamed : g.isNamed p = true) (hvolume : g.isVolume p = true) :
    g.Along bound [item] ⟨[g.nameOf item], some p, 1⟩ where
  line := .singleton hnamed hinside
  segments := rfl
  volume := by
    rintro v hv
    obtain rfl := Option.some.inj hv
    exact ⟨rfl, item, rfl, hparent, hpnamed, hvolume⟩
  noVolume := by simp
  within := hbound

theorem depth_le_length {items : List Int} (ha : g.Along bound items a) :
    a.depth ≤ items.length ∧ items.length ≤ a.depth + 1 := by
  cases hv : a.volume with
  | none =>
      have hdepth := ha.noVolume hv
      omega
  | some v =>
      have hdepth := (ha.volume v hv).1
      omega

theorem length_segments_le {items : List Int} (ha : g.Along bound items a) :
    a.segments.length ≤ bound + 1 := by
  rw [ha.segments, List.length_map, List.length_reverse]
  exact ha.depth_le_length.2.trans (Nat.add_le_add_right ha.within 1)

/-- A chain that is extended within the bound goes on along its line. -/
theorem extend_of_lt (ha : g.Along bound (p :: above) a) (hline : g.IsLine (item :: p :: above))
    (hdepth : a.depth < bound) :
    g.Along bound (item :: p :: above) (a.extend bound (g.nameOf item)) := by
  have hkept : a.extend bound (g.nameOf item) =
      ⟨a.segments ++ [g.nameOf item], a.volume, a.depth + 1⟩ := by
    rw [Ancestry.extend, if_neg (Nat.not_lt.mpr hdepth)]
  rw [hkept]
  constructor
  case line => exact hline
  case segments => simp [ha.segments]
  case volume =>
    intro v hv
    obtain ⟨hlength, htop⟩ := ha.volume v hv
    rw [List.getLast?_cons_cons]
    exact ⟨congrArg (· + 1) hlength, htop⟩
  case noVolume => exact fun hv => congrArg (· + 1) (ha.noVolume hv)
  case within => exact hdepth

/-- Beyond the bound, the line is cut where the segments are. -/
theorem extend_of_le (ha : g.Along bound (p :: above) a) (hline : g.IsLine (item :: p :: above))
    (hdepth : bound ≤ a.depth) :
    g.Along bound ((item :: p :: above).take (bound + 1)) (a.extend bound (g.nameOf item)) := by
  have hsegments : a.segments ++ [g.nameOf item] =
      (item :: p :: above).reverse.map g.nameOf := by
    simp [ha.segments]
  have hcut : a.extend bound (g.nameOf item) =
      ⟨((item :: p :: above).take (bound + 1)).reverse.map g.nameOf, none, bound⟩ := by
    rw [Ancestry.extend, if_pos (Nat.lt_succ_of_le hdepth), hsegments, List.reverse_take,
      List.map_drop, List.length_map, List.length_reverse]
  have hlong : bound + 1 ≤ (item :: p :: above).length :=
    Nat.succ_le_succ (hdepth.trans ha.depth_le_length.1)
  rw [hcut]
  constructor
  case line => exact hline.take _
  case segments => rfl
  case volume => simp
  case noVolume => exact fun _ => (List.length_take_of_le hlong).symm
  case within => exact Nat.le_refl bound

/-- An extended chain lies along a line from the item that stays among the items above it. -/
theorem exists_extend (ha : g.Along bound (p :: above) a) (hparent : p ∈ g.parentsOf item)
    (hnamed : g.isNamed item = true) (hinside : g.isVolume item = false)
    (hnew : item ∉ p :: above) :
    ∃ rest, rest ⊆ p :: above ∧ g.Along bound (item :: rest) (a.extend bound (g.nameOf item)) := by
  have hline := ha.line.up hparent hnamed hinside hnew
  by_cases hdepth : a.depth < bound
  · exact ⟨p :: above, List.Subset.refl _, ha.extend_of_lt hline hdepth⟩
  · exact ⟨(p :: above).take bound, List.take_subset bound _,
      ha.extend_of_le hline (Nat.not_lt.mp hdepth)⟩

end Along

/-- Each chain of a table lies along a line of items that are settled by then. -/
theorem SettledIn.exists_along {chains : Int → Option Ancestry}
    (hsettled : g.SettledIn bound order chains) (hbound : 1 ≤ bound) (ha : chains item = some a)
    (hnamed : g.isNamed item = true) (hinside : g.isVolume item = false) :
    ∃ above, item :: above ⊆ order ∧ g.Along bound (item :: above) a := by
  induction hsettled generalizing item a with
  | nil => contradiction
  | @cons order chains i hbefore hnew _ ih =>
      by_cases heq : item = i
      · subst heq
        rw [Function.update_self, Option.some.injEq] at ha
        subst ha
        -- the item is new, so it is not on the line of a parent that was settled before it
        have hfresh : item ∉ order := by
          rw [← hbefore.isSome_iff, hnew]
          simp
        have hitem : [item] ⊆ item :: order :=
          List.cons_subset_cons item (List.nil_subset order)
        refine bestOf_cases ?alone ?below ?extend
        case alone => exact ⟨[], hitem, .alone hnamed hinside⟩
        case below =>
          intro v hparent hvnamed hvolume
          exact ⟨[], hitem, .below hbound hnamed hinside hparent hvnamed hvolume⟩
        case extend =>
          intro p a hlink ha
          obtain ⟨above, hsubset, habove⟩ := ih ha hlink.named hlink.inside
          obtain ⟨rest, hrest, halong⟩ := habove.exists_extend hlink.parent hnamed hinside
            fun hmem => hfresh (hsubset hmem)
          exact ⟨rest, List.cons_subset_cons item (List.Subset.trans hrest hsubset), halong⟩
      · rw [Function.update_of_ne heq] at ha
        obtain ⟨above, hsubset, halong⟩ := ih ha hnamed hinside
        exact ⟨above, List.subset_cons_of_subset i hsubset, halong⟩

/-- Whatever was resolved before, an item that is no volume resolves to a chain along a line that
starts at it, of at most one name more than the bound. -/
theorem resolve_along (maxDepth : Int) (earlier : List Int) (hnamed : g.isNamed item = true)
    (hinside : g.isVolume item = false) :
    ∃ above, g.Along (boundOf maxDepth) (item :: above)
        (g.resolve maxDepth (g.memoAfter maxDepth earlier) item).1 ∧
      (g.resolve maxDepth (g.memoAfter maxDepth earlier) item).1.segments.length ≤
        boundOf maxDepth + 1 := by
  rw [(g.resolvesAlike maxDepth earlier item).ancestry]
  obtain ⟨chains, hcomplete, hitem⟩ := g.exists_complete maxDepth hinside
  have hbound : 1 ≤ boundOf maxDepth := by
    unfold boundOf
    omega
  obtain ⟨above, -, halong⟩ := hcomplete.table.exists_along hbound hitem hnamed hinside
  exact ⟨above, halong, halong.length_segments_le⟩

/-- Two folders in each other and a file below them: one step short of the volume, the line ends at
the folder that lies in it. -/
theorem resolve_along_loop :
    loop.isNamed 4 = true ∧ loop.isVolume 4 = false ∧
    (loop.resolve 1 (loop.memoAfter 1 [3]) 4).1 = ⟨["A", "x"], none, 1⟩ ∧
    ∃ above, loop.Along (boundOf 1) (4 :: above) ⟨["A", "x"], none, 1⟩ ∧
      ["A", "x"].length ≤ boundOf 1 + 1 := by
  have hnamed : loop.isNamed 4 = true := by decide
  have hresolve : (loop.resolve 1 (loop.memoAfter 1 [3]) 4).1 = ⟨["A", "x"], none, 1⟩ := by
    decide +kernel
  have halong := resolve_along 1 [3] hnamed (show loop.isVolume 4 = false from rfl)
  rw [hresolve] at halong
  exact ⟨hnamed, rfl, hresolve, halong⟩

end DiskCatalog.Index.ItemGraph
