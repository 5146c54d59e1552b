import DiskCatalog.Proofs.Index.BestBranch

/-!
# The bound on the steps

A chain is cut off at the bound as it is extended, after the longest of the branches has been
chosen.  So a volume within the bound can be lost behind an item whose own chain has used the bound
up.  Below no cycle, a volume is found exactly when a branch leads to one through items whose chains
are all shorter than the bound.  Where no branch to a volume is longer than the bound, it is found
whenever there is one.
-/

namespace DiskCatalog.Index.ItemGraph

variable {g : ItemGraph} {maxDepth item p : Int} {ids : List Int}

theorem AcyclicAbove.certain (hacyclic : g.AcyclicAbove item) (hinside : g.isVolume item = false) :
    g.Certain (boundOf maxDepth) item (g.ancestry maxDepth item) := by
  obtain ⟨a, ha⟩ := hacyclic.isCertain (boundOf maxDepth)
  rwa [ha.ancestry_eq hinside]

/-- Below no cycle, an ancestry is made of the ancestries of the parents. -/
theorem AcyclicAbove.ancestry_eq (hacyclic : g.AcyclicAbove item)
    (hinside : g.isVolume item = false) :
    g.ancestry maxDepth item =
      g.bestOf (boundOf maxDepth) (fun p => some (g.ancestry maxDepth p)) item := by
  apply Certain.ancestry_eq _ hinside
  apply Certain.of_above
  intro p hlink
  exact ⟨_, rfl, (hacyclic.parent hlink).certain hlink.inside⟩

theorem depth_ancestry_of_volume (hvolume : g.isVolume item = true) :
    (g.ancestry maxDepth item).depth = 0 := by
  simp [ancestry, resolve, resolveWithin, hvolume, Ancestry.ofVolume]

/-- Whether a branch leads to a volume through items whose chains are shorter than the bound. -/
structure StaysBelow (g : ItemGraph) (maxDepth : Int) (item : Int) (ids : List Int) : Prop where
  branch : g.Branch item ids
  volume : (g.volumeAmong ids).isSome
  shorter : ∀ i ∈ ids, (g.ancestry maxDepth i).depth < boundOf maxDepth

theorem AcyclicAbove.exists_staysBelow (hacyclic : g.AcyclicAbove item)
    (hinside : g.isVolume item = false) (hv : (g.ancestry maxDepth item).volume.isSome) :
    ∃ ids, g.StaysBelow maxDepth item ids := by
  obtain ⟨_, hcertain⟩ := hacyclic.isCertain (boundOf maxDepth)
  induction hcertain with
  | @intro item above _ ih =>
      obtain ⟨v, hv⟩ := Option.isSome_iff_exists.mp hv
      rw [hacyclic.ancestry_eq hinside] at hv
      rcases volume_bestOf hv with ⟨hparent, hnamed, hvolume, -⟩ | ⟨p, a, hlink, ha, hav, hdepth, -⟩
      · have hids := Option.isSome_of_eq_some (volumeAmong_volume hnamed hvolume)
        refine ⟨[v], .volume hparent hnamed hvolume, hids, fun i hi => ?_⟩
        obtain rfl := List.mem_singleton.mp hi
        rw [depth_ancestry_of_volume hvolume]
        exact one_le_boundOf maxDepth
      · obtain rfl := Option.some.inj ha
        obtain ⟨ids, hstays⟩ := ih p hlink (hacyclic.parent hlink) hlink.inside
          (Option.isSome_of_eq_some hav)
        refine ⟨p :: ids, .up hlink hstays.branch, ?_, List.forall_mem_cons.mpr ⟨hdepth, ?_⟩⟩
        · rw [volumeAmong_up hlink]
          exact hstays.volume
        · exact hstays.shorter

/-- A volume is found through a parent with a volume and a chain shorter than the bound. -/
theorem AcyclicAbove.volume_of_link (hacyclic : g.AcyclicAbove item)
    (hinside : g.isVolume item = false) (hlink : g.LeadsTo item p)
    (hv : (g.ancestry maxDepth p).volume.isSome)
    (hdepth : (g.ancestry maxDepth p).depth < boundOf maxDepth) :
    (g.ancestry maxDepth item).volume.isSome := by
  rw [hacyclic.ancestry_eq hinside]
  exact (bestOf_of_link hlink rfl hdepth hv).1

theorem AcyclicAbove.volume_of_volume {v : Int} (hacyclic : g.AcyclicAbove item)
    (hinside : g.isVolume item = false) (hparent : v ∈ g.parentsOf item)
    (hnamed : g.isNamed v = true) (hvolume : g.isVolume v = true) :
    (g.ancestry maxDepth item).volume.isSome := by
  rw [hacyclic.ancestry_eq hinside]
  exact (bestOf_of_volume hparent hnamed hvolume).1

theorem StaysBelow.volume_isSome (hstays : g.StaysBelow maxDepth item ids)
    (hacyclic : g.AcyclicAbove item) (hinside : g.isVolume item = false) :
    (g.ancestry maxDepth item).volume.isSome := by
  obtain ⟨hbranch, hv, hshorter⟩ := hstays
  induction hbranch, hv using Branch.volume_induction with
  | volume hparent hnamed hvolume => exact hacyclic.volume_of_volume hinside hparent hnamed hvolume
  | up hlink _ _ _ ih =>
      rw [List.forall_mem_cons] at hshorter
      have habove := ih (hacyclic.parent hlink) hlink.inside hshorter.2
      exact hacyclic.volume_of_link hinside hlink habove hshorter.1

theorem AcyclicAbove.volume_of_within (hacyclic : g.AcyclicAbove item)
    (hinside : g.isVolume item = false)
    (hwithin : ∀ ids, g.Branch item ids → (g.volumeAmong ids).isSome →
      g.steps ids ≤ boundOf maxDepth)
    (hbranch : g.Branch item ids) (hv : (g.volumeAmong ids).isSome) :
    (g.ancestry maxDepth item).volume.isSome := by
  induction hbranch, hv using Branch.volume_induction with
  | volume hparent hnamed hvolume => exact hacyclic.volume_of_volume hinside hparent hnamed hvolume
  | @up item p ids hlink _ _ _ ih =>
      -- branches of the parent are one step shorter than those that they make
      have hshorter : ∀ others, g.Branch p others → (g.volumeAmong others).isSome →
          g.steps others < boundOf maxDepth := by
        intro others hothers hends
        have hsteps := hwithin _ (.up hlink hothers) ((volumeAmong_up hlink others).symm ▸ hends)
        rwa [steps_up hlink] at hsteps
      have habove := ih (hacyclic.parent hlink) hlink.inside
        fun others hothers hends => (hshorter others hothers hends).le
      obtain ⟨v, hfound⟩ := Option.isSome_iff_exists.mp habove
      obtain ⟨others, hothers, hends, hdepth, -⟩ := exists_branch_of_volume hlink.inside hfound
      have hless := hshorter others hothers (Option.isSome_of_eq_some hends)
      exact hacyclic.volume_of_link hinside hlink habove (hdepth ▸ hless)

/-- What the volume of a chain says of the branches of its item. -/
structure FindsVolume (g : ItemGraph) (maxDepth item : Int) (a : Ancestry) : Prop where
  /-- A volume that is found lies at the end of a branch with the steps of the chain, which are
  within the bound. -/
  within : ∀ v, a.volume = some v → ∃ ids, g.Branch item ids ∧ g.volumeAmong ids = some v ∧
    g.steps ids = a.depth ∧ g.steps ids ≤ boundOf maxDepth
  /-- One is found exactly when a branch leads to one through items whose chains are shorter than
  the bound. -/
  unspent : a.volume.isSome ↔ ∃ ids, g.StaysBelow maxDepth item ids
  /-- Where no branch to a volume is longer than the bound, a volume is found if there is one. -/
  complete : (∀ ids, g.Branch item ids → (g.volumeAmong ids).isSome →
      g.steps ids ≤ boundOf maxDepth) →
    (a.volume.isSome ↔ ∃ ids, g.Branch item ids ∧ (g.volumeAmong ids).isSome ∧
      g.steps ids ≤ boundOf maxDepth)

/-- When an item below no cycle finds a volume within the bound. -/
theorem resolve_findsVolume (maxDepth : Int) (earlier : List Int)
    (hinside : g.isVolume item = false) (hacyclic : g.AcyclicAbove item) :
    g.FindsVolume maxDepth item (g.resolve maxDepth (g.memoAfter maxDepth earlier) item).1 := by
  rw [(g.resolvesAlike maxDepth earlier item).ancestry]
  have hsound := fun v (hv : (g.ancestry maxDepth item).volume = some v) =>
    exists_branch_of_volume hinside hv
  refine ⟨hsound, ⟨hacyclic.exists_staysBelow hinside, ?_⟩, fun hwithin => ⟨fun hv => ?_, ?_⟩⟩
  · rintro ⟨ids, hstays⟩
    exact hstays.volume_isSome hacyclic hinside
  · obtain ⟨v, hv⟩ := Option.isSome_iff_exists.mp hv
    obtain ⟨ids, hbranch, hids, -, hsteps⟩ := hsound v hv
    exact ⟨ids, hbranch, Option.isSome_of_eq_some hids, hsteps⟩
  · rintro ⟨ids, hbranch, hv, -⟩
    exact hacyclic.volume_of_within hinside hwithin hbranch hv

/-- A file in a folder that lies in a volume and, once more, in another folder of this volume. -/
def detour : ItemGraph where
  parents := (((∅ : Std.TreeMap Int (List Int)).insert 1 [2]).insert 2 [3, 10]).insert 3 [10]
  name? := fun i =>
    ([(1, "x"), (2, "p"), (3, "q"), (10, "v")] : List (Int × Store.TextCell)).lookup i
  isVolume := (· == 10)

theorem detour_ascends (i p : Int) (hp : p ∈ detour.parentsOf i) : i < p := by
  have hlinks : ∀ link ∈ detour.parents.toList, ∀ p ∈ link.2, link.1 < p := by decide +kernel
  exact hlinks _ (mem_links (List.ne_nil_of_mem hp)) p hp

theorem detour_acyclic (i : Int) : ¬ Relation.TransGen (fun i p => p ∈ detour.parentsOf i) i i := by
  intro hcycle
  have hascends : ∀ {p}, Relation.TransGen (fun i p => p ∈ detour.parentsOf i) i p → i < p := by
    intro p hclimb
    induction hclimb with
    | single hp => exact detour_ascends _ _ hp
    | tail _ hp ih => exact ih.trans (detour_ascends _ _ hp)
  exact lt_irrefl i (hascends hcycle)

theorem detour_acyclicAbove (item : Int) : detour.AcyclicAbove item :=
  fun i _ hcycle =>
    detour_acyclic i (Relation.TransGen.mono (fun _ _ hlink => hlink.parent) i i hcycle)

/-- The file is within two steps of the volume, and with a bound of two steps nothing is found: the
chain of its folder takes both of them. -/
theorem resolve_findsVolume_detour :
    detour.isVolume 1 = false ∧ detour.AcyclicAbove 1 ∧
    (detour.resolve 2 (detour.memoAfter 2 [3]) 1).1 = ⟨["q", "p", "x"], none, 2⟩ ∧
    detour.FindsVolume 2 1 ⟨["q", "p", "x"], none, 2⟩ := by
  have hresolve : (detour.resolve 2 (detour.memoAfter 2 [3]) 1).1 = ⟨["q", "p", "x"], none, 2⟩ := by
    decide +kernel
  exact ⟨rfl, detour_acyclicAbove 1, hresolve,
    hresolve ▸ resolve_findsVolume 2 [3] rfl (detour_acyclicAbove 1)⟩

/-- A volume at the end of a branch within the bound is not found. -/
theorem bound_hides_volume :
    (∀ i, ¬ Relation.TransGen (fun i p => p ∈ detour.parentsOf i) i i) ∧
    detour.isVolume 1 = false ∧ (detour.resolve 2 ∅ 1).1.volume = none ∧
    ∃ ids, detour.Branch 1 ids ∧ detour.volumeAmong ids = some 10 ∧
      (detour.steps ids : Int) ≤ 2 := by
  refine ⟨detour_acyclic, rfl, by decide +kernel, [2, 10], ?_, by decide, by decide⟩
  have hlink : detour.LeadsTo 1 2 := ⟨by decide +kernel, by decide, by decide⟩
  exact .up hlink (.volume (by decide +kernel) (by decide) (by decide))

end DiskCatalog.Index.ItemGraph
