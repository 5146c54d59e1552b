import DiskCatalog.Proofs.Index.Resolution

/-!
# Branches

A branch follows parents upwards from an item.  It ends at a volume, at a parent that does not
exist, or at an item without parents.  One that ends at a volume ranks above one that does not, and
among those the one with more steps ranks higher.  An ancestry that has a volume describes a branch
to it within the bound.
-/

namespace DiskCatalog.Index.ItemGraph

variable {g : ItemGraph} {item p : Int}

/-- The branches upwards from an item, as the ids that they take, the nearest first. -/
inductive Branch (g : ItemGraph) : Int → List Int → Prop
  | root {item : Int} (hroot : g.parentsOf item = []) : Branch g item []
  | missing {item p : Int} (hparent : p ∈ g.parentsOf item) (hmissing : g.isNamed p = false) :
      Branch g item [p]
  | volume {item v : Int} (hparent : v ∈ g.parentsOf item) (hnamed : g.isNamed v = true)
      (hvolume : g.isVolume v = true) : Branch g item [v]
  | up {item p : Int} {ids : List Int} (hlink : g.LeadsTo item p) (habove : Branch g p ids) :
      Branch g item (p :: ids)

/-- The volume among some ids; a branch has one at its end only. -/
def volumeAmong (g : ItemGraph) (ids : List Int) : Option Int :=
  ids.find? fun i => g.isNamed i && g.isVolume i

/-- The steps of a branch.  A last one to a parent that does not exist is not counted. -/
def steps (g : ItemGraph) (ids : List Int) : Nat :=
  ids.countP g.isNamed

def rankOf (g : ItemGraph) (ids : List Int) : Bool ×ₗ Nat :=
  toLex ((g.volumeAmong ids).isSome, g.steps ids)

/-- The chain along a branch: its names from below the volume down to the item. -/
def chainAlong (g : ItemGraph) (item : Int) (ids : List Int) : Ancestry where
  segments := (item :: ids.filter fun i => g.isNamed i && !g.isVolume i).reverse.map g.nameOf
  volume := g.volumeAmong ids
  depth := g.steps ids

/-- A volume is reached from an item by following links through items that are none. -/
def Reaches (g : ItemGraph) (item v : Int) : Prop :=
  ∃ top, Relation.ReflTransGen g.LeadsTo item top ∧ v ∈ g.parentsOf top ∧
    g.isNamed v = true ∧ g.isVolume v = true

variable {ids : List Int}

theorem volumeAmong_missing (hmissing : g.isNamed p = false) : g.volumeAmong [p] = none := by
  simp [volumeAmong, hmissing]

theorem steps_missing (hmissing : g.isNamed p = false) : g.steps [p] = 0 := by
  simp [steps, hmissing]

theorem volumeAmong_volume (hnamed : g.isNamed p = true) (hvolume : g.isVolume p = true) :
    g.volumeAmong [p] = some p := by
  simp [volumeAmong, hnamed, hvolume]

theorem steps_volume (hnamed : g.isNamed p = true) : g.steps [p] = 1 := by
  simp [steps, hnamed]

theorem volumeAmong_up (hlink : g.LeadsTo item p) (ids : List Int) :
    g.volumeAmong (p :: ids) = g.volumeAmong ids := by
  simp [volumeAmong, hlink.inside]

theorem steps_up (hlink : g.LeadsTo item p) (ids : List Int) :
    g.steps (p :: ids) = g.steps ids + 1 := by
  simp [steps, hlink.named]

theorem rankOf_up_le {others : List Int} (hlink : g.LeadsTo item p) :
    g.rankOf (p :: ids) ≤ g.rankOf (p :: others) ↔ g.rankOf ids ≤ g.rankOf others := by
  simp only [rankOf, volumeAmong_up hlink, steps_up hlink, Prod.Lex.toLex_le_toLex,
    Nat.add_le_add_iff_right]

theorem rank_chainAlong (item : Int) (ids : List Int) :
    (g.chainAlong item ids).rank = g.rankOf ids :=
  rfl

theorem chainAlong_up (hlink : g.LeadsTo item p) (ids : List Int) :
    g.chainAlong item (p :: ids) = ⟨(g.chainAlong p ids).segments ++ [g.nameOf item],
      (g.chainAlong p ids).volume, (g.chainAlong p ids).depth + 1⟩ := by
  simp [chainAlong, volumeAmong_up hlink, steps_up hlink, hlink.named, hlink.inside]

theorem Branch.of_cons (hbranch : g.Branch item (p :: ids)) (hlink : g.LeadsTo item p) :
    g.Branch p ids := by
  cases hbranch with
  | missing _ hmissing => simp [hlink.named] at hmissing
  | volume _ _ hvolume => simp [hlink.inside] at hvolume
  | up _ habove => exact habove

theorem Branch.parent (hbranch : g.Branch item (p :: ids)) : p ∈ g.parentsOf item := by
  cases hbranch with
  | missing hparent | volume hparent => exact hparent
  | up hlink => exact hlink.parent

/-- A branch to a volume ends there at once or goes on as one of a parent. -/
@[elab_as_elim]
theorem Branch.volume_induction
    {motive : ∀ item ids, g.Branch item ids → (g.volumeAmong ids).isSome → Prop}
    (volume : ∀ {item v : Int} (hparent : v ∈ g.parentsOf item) (hnamed : g.isNamed v = true)
      (hvolume : g.isVolume v = true) (hv : (g.volumeAmong [v]).isSome),
        motive item [v] (.volume hparent hnamed hvolume) hv)
    (up : ∀ {item p : Int} {ids : List Int} (hlink : g.LeadsTo item p) (habove : g.Branch p ids)
      (hids : (g.volumeAmong ids).isSome) (hv : (g.volumeAmong (p :: ids)).isSome),
        motive p ids habove hids → motive item (p :: ids) (.up hlink habove) hv)
    (hbranch : g.Branch item ids) (hv : (g.volumeAmong ids).isSome) :
    motive item ids hbranch hv := by
  induction hbranch with
  | root => contradiction
  | missing _ hmissing =>
      rw [volumeAmong_missing hmissing] at hv
      contradiction
  | volume hparent hnamed hvolume => exact volume hparent hnamed hvolume hv
  | up hlink habove ih =>
      have hids : (g.volumeAmong _).isSome := volumeAmong_up hlink _ ▸ hv
      exact up hlink habove hids hv (ih hids)

/-- What is reached from an item is what its branches end at. -/
theorem reaches_iff {v : Int} :
    g.Reaches item v ↔ ∃ ids, g.Branch item ids ∧ g.volumeAmong ids = some v := by
  constructor
  · rintro ⟨top, hclimb, hparent, hnamed, hvolume⟩
    induction hclimb using Relation.ReflTransGen.head_induction_on with
    | refl => exact ⟨[v], .volume hparent hnamed hvolume, volumeAmong_volume hnamed hvolume⟩
    | head hlink _ ih =>
        obtain ⟨ids, hbranch, hv⟩ := ih
        exact ⟨_, .up hlink hbranch, (volumeAmong_up hlink ids).trans hv⟩
  · rintro ⟨ids, hbranch, hv⟩
    have hsome := Option.isSome_of_eq_some hv
    induction hbranch, hsome using Branch.volume_induction with
    | volume hparent hnamed hvolume =>
        rw [volumeAmong_volume hnamed hvolume] at hv
        obtain rfl := Option.some.inj hv
        exact ⟨_, .refl, hparent, hnamed, hvolume⟩
    | up hlink _ _ _ ih =>
        rw [volumeAmong_up hlink] at hv
        obtain ⟨top, hclimb, hrest⟩ := ih hv
        exact ⟨top, .head hlink hclimb, hrest⟩

/-- A branch that takes no id twice has no more steps than there are names. -/
theorem steps_le_card {named : Finset Int} (hnamed : ∀ i, g.isNamed i = true → i ∈ named)
    (hids : ids.Nodup) : g.steps ids ≤ named.card := by
  rw [steps, List.countP_eq_length_filter, ← List.toFinset_card_of_nodup (hids.filter _)]
  apply Finset.card_le_card
  intro i hi
  exact hnamed i (List.mem_filter.mp (List.mem_toFinset.mp hi)).2

/-- The links of an item that has any. -/
theorem mem_links {i : Int} (hparents : g.parentsOf i ≠ []) :
    (i, g.parentsOf i) ∈ g.parents.toList := by
  rw [Std.TreeMap.mem_toList_iff_getElem?_eq_some]
  cases hlinks : g.parents[i]? with
  | none => simp [parentsOf, Std.TreeMap.getD_eq_getD_getElem?, hlinks] at hparents
  | some parents => simp [parentsOf, Std.TreeMap.getD_eq_getD_getElem?, hlinks]

/-! ## The volume of an ancestry -/

theorem one_le_boundOf (maxDepth : Int) : 1 ≤ boundOf maxDepth := by
  unfold boundOf
  omega

/-- An item that is no volume itself owes its volume to a branch of as many steps within the
bound. -/
theorem exists_branch_of_volume {maxDepth v : Int} (hinside : g.isVolume item = false)
    (hv : (g.ancestry maxDepth item).volume = some v) :
    ∃ ids, g.Branch item ids ∧ g.volumeAmong ids = some v ∧
      g.steps ids = (g.ancestry maxDepth item).depth ∧ g.steps ids ≤ boundOf maxDepth := by
  have hclosed : g.IsClosed (boundOf maxDepth) fun item a => g.isVolume item = false →
      a.volume = some v → ∃ ids, g.Branch item ids ∧ g.volumeAmong ids = some v ∧
        g.steps ids = a.depth ∧ g.steps ids ≤ boundOf maxDepth := by
    constructor
    case volume =>
      intro i hvolume hinside
      simp [hvolume] at hinside
    case alone =>
      intro i _ ha
      contradiction
    case below =>
      intro i p hp hnamed hvolume _ ha
      obtain rfl := Option.some.inj ha
      have hsteps := steps_volume hnamed
      exact ⟨[p], .volume hp hnamed hvolume, volumeAmong_volume hnamed hvolume, hsteps,
        hsteps.trans_le (one_le_boundOf maxDepth)⟩
    case extend =>
      intro i p a hlink habove _ ha
      unfold Ancestry.extend at ha ⊢
      simp only at ha ⊢
      split at ha
      · contradiction
      · rename_i hdepth
        obtain ⟨ids, hbranch, hids, hsteps, -⟩ := habove hlink.inside ha
        rw [if_neg hdepth]
        refine ⟨p :: ids, .up hlink hbranch, (volumeAmong_up hlink ids).trans hids, ?_, ?_⟩
        · rw [steps_up hlink, hsteps]
        · rw [steps_up hlink, hsteps]
          omega
  exact hclosed.ancestry item hinside hv

end DiskCatalog.Index.ItemGraph
