import Mathlib.Order.Bounds.Basic
import DiskCatalog.Proofs.Index.BestBranch
import DiskCatalog.Proofs.Index.SettlingOrder

/-!
# Routes

A route is a branch to a volume whose items were settled one before the other.  With a bound that is
not below the number of names nothing is cut off, and the chain of an item is as long as its longest
route.

Every volume that can be reached from an item is at the end of one of its routes, as what a walk has
settled is handed down to the item.  So a cycle hides no volume.  A branch that takes no id twice
need not be a route, though: where items on a cycle were settled in another order than that of the
branch, a longer branch is missed.  Below no cycle every branch to a volume is a route.
-/

namespace DiskCatalog.Index.ItemGraph

variable {g : ItemGraph} {bound : Nat} {item p v : Int} {ids order : List Int}
  {chains : Int → Option Ancestry}

/-! ## Branches to volumes -/

theorem ne_nil_of_volume (hv : (g.volumeAmong ids).isSome) : ids ≠ [] := by
  rintro rfl
  contradiction

/-- On a branch to a volume, only the last id is a volume. -/
theorem Branch.exists_between (hbranch : g.Branch item ids) (hv : (g.volumeAmong ids).isSome) :
    ∃ between v, ids = between ++ [v] ∧ g.isVolume v = true ∧
      ∀ i ∈ between, g.isVolume i = false := by
  induction hbranch, hv using Branch.volume_induction with
  | @volume _ v _ _ hvolume => exact ⟨[], v, rfl, hvolume, by simp⟩
  | @up _ p _ hlink _ _ _ ih =>
      obtain ⟨between, v, rfl, hvolume, hbetween⟩ := ih
      exact ⟨p :: between, v, rfl, hvolume, List.forall_mem_cons.mpr ⟨hlink.inside, hbetween⟩⟩

/-! ## Routes -/

/-- A branch to a volume whose items were settled one before the other. -/
structure IsRoute (g : ItemGraph) (order : List Int) (item : Int) (ids : List Int) : Prop where
  branch : g.Branch item ids
  volume : (g.volumeAmong ids).isSome
  along : (item :: ids.dropLast).Sublist order

theorem IsRoute.nodup (hroute : g.IsRoute order item ids) (horder : order.Nodup)
    (hinside : g.isVolume item = false) : (item :: ids).Nodup := by
  obtain ⟨between, v, rfl, hvolume, hbetween⟩ := hroute.branch.exists_between hroute.volume
  have halong := hroute.along.nodup horder
  rw [List.dropLast_concat] at halong
  have hnone : ∀ i ∈ item :: between, g.isVolume i = false :=
    List.forall_mem_cons.mpr ⟨hinside, hbetween⟩
  rw [← List.cons_append, List.nodup_append]
  refine ⟨halong, List.nodup_singleton v, fun i hi j hj heq => ?_⟩
  obtain rfl := List.mem_singleton.mp hj
  rw [← heq, hnone i hi] at hvolume
  contradiction

theorem IsRoute.of_volume (hparent : v ∈ g.parentsOf item) (hnamed : g.isNamed v = true)
    (hvolume : g.isVolume v = true) : g.IsRoute (item :: order) item [v] where
  branch := .volume hparent hnamed hvolume
  volume := Option.isSome_of_eq_some (volumeAmong_volume hnamed hvolume)
  along := (List.nil_sublist order).cons_cons item

theorem IsRoute.up (hroute : g.IsRoute order p ids) (hlink : g.LeadsTo item p) :
    g.IsRoute (item :: order) item (p :: ids) where
  branch := .up hlink hroute.branch
  volume := by
    rw [volumeAmong_up hlink]
    exact hroute.volume
  along := by
    rw [List.dropLast_cons_of_ne_nil (ne_nil_of_volume hroute.volume)]
    exact hroute.along.cons_cons item

theorem IsRoute.cons (hroute : g.IsRoute order item ids) (i : Int) :
    g.IsRoute (i :: order) item ids :=
  ⟨hroute.branch, hroute.volume, hroute.along.cons i⟩

theorem IsRoute.of_cons {i : Int} (hroute : g.IsRoute (i :: order) item ids) (hne : item ≠ i) :
    g.IsRoute order item ids := by
  refine ⟨hroute.branch, hroute.volume, ?_⟩
  rcases List.sublist_cons_iff.mp hroute.along with halong | ⟨_, heq, -⟩
  · exact halong
  · exact absurd (List.cons.inj heq).1 hne

/-- A route of the item settled last ends at once or goes on as a route of a parent. -/
theorem IsRoute.cases_head (hroute : g.IsRoute (item :: order) item ids) :
    (∃ v ∈ g.parentsOf item, g.isNamed v = true ∧ g.isVolume v = true ∧ ids = [v]) ∨
    ∃ p more, g.LeadsTo item p ∧ g.IsRoute order p more ∧ ids = p :: more := by
  obtain ⟨hbranch, hv, halong⟩ := hroute
  cases hbranch, hv using Branch.volume_induction with
  | @volume _ v hparent hnamed hvolume => exact Or.inl ⟨v, hparent, hnamed, hvolume, rfl⟩
  | @up _ p more hlink habove hv =>
      rw [List.dropLast_cons_of_ne_nil (ne_nil_of_volume hv)] at halong
      exact Or.inr ⟨p, more, hlink, ⟨habove, hv, List.cons_sublist_cons.mp halong⟩, rfl⟩

/-! ## Chains and routes -/

theorem SettledIn.exists_route (hsettled : g.SettledIn bound order chains) {a : Ancestry}
    (ha : chains item = some a) (hv : a.volume.isSome) :
    ∃ ids, g.IsRoute order item ids ∧ g.steps ids = a.depth := by
  induction hsettled generalizing item a with
  | nil => contradiction
  | @cons order chains i hbefore _ _ ih =>
      by_cases heq : item = i
      · -- the chain was made of those settled before, so it is one step longer than a route
        subst heq
        rw [Function.update_self, Option.some.injEq] at ha
        subst ha
        obtain ⟨v, hv⟩ := Option.isSome_iff_exists.mp hv
        rcases volume_bestOf hv with ⟨hparent, hnamed, hvolume, hdepth⟩ |
          ⟨p, b, hlink, hb, hbv, -, hdepth⟩
        · exact ⟨[v], .of_volume hparent hnamed hvolume, by rw [steps_volume hnamed, hdepth]⟩
        · obtain ⟨ids, hroute, hsteps⟩ := ih hb (Option.isSome_of_eq_some hbv)
          exact ⟨p :: ids, hroute.up hlink, by rw [steps_up hlink, hsteps, hdepth]⟩
      · rw [Function.update_of_ne heq] at ha
        obtain ⟨ids, hroute, hsteps⟩ := ih ha hv
        exact ⟨ids, hroute.cons i, hsteps⟩

section Unbounded

variable {named : Finset Int} (hnamed : ∀ i, g.isNamed i = true → i ∈ named)
  (hbound : named.card ≤ bound)

include hnamed hbound in
/-- The chain through a parent is not cut off when the bound is not below the number of names. -/
theorem SettledIn.depth_lt (hsettled : g.SettledIn bound order chains) (hlink : g.LeadsTo item p)
    {a : Ancestry} (ha : chains p = some a) (hv : a.volume.isSome) : a.depth < bound := by
  obtain ⟨ids, hroute, hsteps⟩ := hsettled.exists_route ha hv
  have hcard := steps_le_card hnamed (hroute.nodup hsettled.nodup hlink.inside)
  have hup := steps_up hlink ids
  omega

include hnamed hbound in
theorem SettledIn.steps_le (hsettled : g.SettledIn bound order chains)
    (hroute : g.IsRoute order item ids) :
    ∃ a, chains item = some a ∧ a.volume.isSome ∧ g.steps ids ≤ a.depth := by
  induction hsettled generalizing item ids with
  | nil => exact absurd hroute.along (by simp)
  | @cons order chains i hbefore _ _ ih =>
      by_cases heq : item = i
      · subst heq
        refine ⟨_, Function.update_self .., ?_⟩
        rcases hroute.cases_head with ⟨v, hparent, hvnamed, hvolume, rfl⟩ |
          ⟨p, more, hlink, hmore, rfl⟩
        · rw [steps_volume hvnamed]
          exact bestOf_of_volume hparent hvnamed hvolume
        · obtain ⟨a, ha, hv, hsteps⟩ := ih hmore
          have hdepth := hbefore.depth_lt hnamed hbound hlink ha hv
          obtain ⟨hvolume, hless⟩ := bestOf_of_link hlink ha hdepth hv
          exact ⟨hvolume, by rw [steps_up hlink]; omega⟩
      · obtain ⟨a, ha, hrest⟩ := ih (hroute.of_cons heq)
        exact ⟨a, (Function.update_of_ne heq ..).trans ha, hrest⟩

end Unbounded

/-! ## Routes to what can be reached -/

/-- A way from an item down to the first one, as the ids by which its branches are continued. -/
structure Way (g : ItemGraph) (start i : Int) (order path : List Int) : Prop where
  branch : ∀ ids, g.Branch i ids → g.Branch start (path ++ ids)
  volume : ∀ ids, g.volumeAmong (path ++ ids) = g.volumeAmong ids
  along : (start :: path).Sublist order

section Ways

variable {start i : Int} {path : List Int}

theorem Way.here (g : ItemGraph) (order : List Int) (start : Int) :
    g.Way start start (order ++ [start]) [] where
  branch := fun _ hbranch => hbranch
  volume := fun _ => rfl
  along := List.sublist_append_right order [start]

theorem Way.tail (hway : g.Way start i order path) (hlink : g.LeadsTo i p) :
    g.Way start p (order ++ [p]) (path ++ [p]) where
  branch := by
    intro ids hbranch
    rw [List.append_assoc]
    exact hway.branch _ (.up hlink hbranch)
  volume := by
    intro ids
    rw [List.append_assoc, hway.volume]
    exact volumeAmong_up hlink ids
  along := hway.along.append_right [p]

theorem Way.mono {more : List Int} (hway : g.Way start i order path)
    (hmore : order.Sublist more) : g.Way start i more path :=
  ⟨hway.branch, hway.volume, hway.along.trans hmore⟩

theorem HandedDown.exists_way {later : List Int} (hhanded : g.HandedDown start later order)
    (hlater : ∀ i ∈ later, ∃ path, g.Way start i later.reverse path) :
    ∀ i ∈ order, ∃ path, g.Way start i (later.reverse ++ order) path := by
  induction order generalizing later with
  | nil => simp
  | cons item order ih =>
      obtain ⟨hlink, hrest⟩ := hhanded
      -- the way from the item goes on from one that is settled later
      have hitem : ∃ path, g.Way start item (later.reverse ++ [item]) path := by
        rcases hlink with rfl | ⟨i, hi, hlink⟩
        · exact ⟨[], .here g _ item⟩
        · obtain ⟨path, hway⟩ := hlater i hi
          exact ⟨_, hway.tail hlink⟩
      have hlater' : ∀ i ∈ item :: later, ∃ path, g.Way start i (item :: later).reverse path := by
        rw [List.reverse_cons]
        refine List.forall_mem_cons.mpr ⟨hitem, fun i hi => ?_⟩
        obtain ⟨path, hway⟩ := hlater i hi
        exact ⟨path, hway.mono (List.sublist_append_left _ _)⟩
      have hall := ih hrest hlater'
      rw [List.reverse_cons, List.append_assoc, List.singleton_append] at hall
      refine List.forall_mem_cons.mpr ⟨?_, hall⟩
      obtain ⟨path, hway⟩ := hitem
      exact ⟨path, hway.mono ((List.singleton_sublist.mpr List.mem_cons_self).append_left _)⟩

end Ways

/-- Every volume that can be reached is at the end of a route. -/
theorem Complete.exists_route (hcomplete : g.Complete bound item order chains)
    (hreach : g.Reaches item v) : ∃ ids, g.IsRoute order item ids := by
  obtain ⟨top, hclimb, hparent, hnamed, hvolume⟩ := hreach
  have hmem : ∀ i, Relation.ReflTransGen g.LeadsTo item i → i ∈ order := by
    intro i hclimb
    induction hclimb with
    | refl => exact hcomplete.start
    | tail _ hlink ih => exact hcomplete.closed _ ih _ hlink
  obtain ⟨path, hway⟩ := hcomplete.handed.exists_way (by simp) top (hmem top hclimb)
  have hids := (hway.volume [v]).trans (volumeAmong_volume hnamed hvolume)
  refine ⟨path ++ [v], hway.branch [v] (.volume hparent hnamed hvolume),
    Option.isSome_of_eq_some hids, ?_⟩
  rw [List.dropLast_concat]
  exact hway.along

/-! ## Branches off cycles -/

/-- No link of a branch lies on a cycle. -/
def OffCycles (g : ItemGraph) : Int → List Int → Prop
  | _, [] => True
  | item, p :: ids =>
    (g.LeadsTo item p → ¬ Relation.TransGen g.LeadsTo p item) ∧ OffCycles g p ids

theorem AcyclicAbove.offCycles (hacyclic : g.AcyclicAbove item) (hbranch : g.Branch item ids) :
    g.OffCycles item ids := by
  have hoff : ∀ {i p}, g.AcyclicAbove i → g.LeadsTo i p → ¬ Relation.TransGen g.LeadsTo p i :=
    fun hi hlink hback => hi _ .refl (.head hlink hback)
  induction hbranch with
  | root => trivial
  | missing | volume => exact ⟨hoff hacyclic, trivial⟩
  | up hlink _ ih => exact ⟨hoff hacyclic, ih (hacyclic.parent hlink)⟩

/-- A branch to a volume is a route when no link of it lies on a cycle. -/
theorem SettledIn.isRoute (hsettled : g.SettledIn bound order chains) (hitem : item ∈ order)
    (hbranch : g.Branch item ids) (hv : (g.volumeAmong ids).isSome)
    (hoff : g.OffCycles item ids) : g.IsRoute order item ids := by
  induction hsettled generalizing item ids with
  | nil => contradiction
  | @cons order _ i _ _ habove ih =>
      by_cases heq : item = i
      · subst heq
        cases hbranch, hv using Branch.volume_induction with
        | volume hparent hnamed hvolume => exact .of_volume hparent hnamed hvolume
        | up hlink hbranch hv =>
            -- a parent that is settled later would lie on a cycle with the item
            have hbefore := (habove _ hlink).resolve_right (hoff.1 hlink)
            exact (ih hbefore hbranch hv hoff.2).up hlink
      · have hmem := (List.mem_cons.mp hitem).resolve_left heq
        exact (ih hmem hbranch hv hoff).cons i

/-! ## The chain of an item -/

def routeSteps (g : ItemGraph) (order : List Int) (item : Int) : Set Nat :=
  {n | ∃ ids, g.IsRoute order item ids ∧ g.steps ids = n}

/-- The steps of the branches that end at a volume and take no id twice. -/
def simpleSteps (g : ItemGraph) (item : Int) : Set Nat :=
  {n | ∃ ids, g.Branch item ids ∧ (g.volumeAmong ids).isSome ∧ (item :: ids).Nodup ∧
    g.steps ids = n}

theorem routeSteps_subset (horder : order.Nodup) (hinside : g.isVolume item = false) :
    g.routeSteps order item ⊆ g.simpleSteps item := by
  rintro n ⟨ids, hroute, hsteps⟩
  exact ⟨ids, hroute.branch, hroute.volume, hroute.nodup horder hinside, hsteps⟩

section Ancestry

variable {maxDepth : Int} {named : Finset Int} (hnamed : ∀ i, g.isNamed i = true → i ∈ named)
  (hbound : named.card ≤ boundOf maxDepth) (hinside : g.isVolume item = false)

include hnamed hbound hinside in
theorem IsRoute.le_ancestry (hroute : g.IsRoute (g.settlingOrder maxDepth item) item ids) :
    (g.ancestry maxDepth item).volume.isSome ∧
      g.steps ids ≤ (g.ancestry maxDepth item).depth := by
  obtain ⟨chains, hcomplete, hitem⟩ := g.exists_complete maxDepth hinside
  obtain ⟨a, ha, hle⟩ := hcomplete.table.steps_le hnamed hbound hroute
  rw [hitem, Option.some.injEq] at ha
  rwa [ha]

include hnamed hbound hinside in
theorem volume_ancestry_of_reaches (hreach : g.Reaches item v) :
    (g.ancestry maxDepth item).volume.isSome := by
  obtain ⟨chains, hcomplete, -⟩ := g.exists_complete maxDepth hinside
  obtain ⟨ids, hroute⟩ := hcomplete.exists_route hreach
  exact (hroute.le_ancestry hnamed hbound hinside).1

include hnamed hbound hinside in
theorem depth_ancestry_isGreatest (hv : (g.ancestry maxDepth item).volume.isSome) :
    IsGreatest (g.routeSteps (g.settlingOrder maxDepth item) item)
      (g.ancestry maxDepth item).depth := by
  obtain ⟨chains, hcomplete, hitem⟩ := g.exists_complete maxDepth hinside
  refine ⟨hcomplete.table.exists_route hitem hv, ?_⟩
  rintro n ⟨ids, hroute, rfl⟩
  exact (hroute.le_ancestry hnamed hbound hinside).2

end Ancestry

/-- A cycle hides no volume: with a bound that is not below the number of names, a volume is found
whenever one can be reached, and it is one of these. -/
theorem resolve_findsReachable {maxDepth : Int} {named : Finset Int} (earlier : List Int)
    (hnamed : ∀ i, g.isNamed i = true → i ∈ named) (hbound : named.card ≤ boundOf maxDepth)
    (hinside : g.isVolume item = false) :
    ((g.resolve maxDepth (g.memoAfter maxDepth earlier) item).1.volume ≠ none ↔
      ∃ v, g.Reaches item v) ∧
    ∀ v, (g.resolve maxDepth (g.memoAfter maxDepth earlier) item).1.volume = some v →
      g.Reaches item v := by
  rw [(g.resolvesAlike maxDepth earlier item).ancestry]
  have hsound : ∀ v, (g.ancestry maxDepth item).volume = some v → g.Reaches item v := by
    intro v hv
    obtain ⟨ids, hbranch, hids, -⟩ := exists_branch_of_volume hinside hv
    exact reaches_iff.mpr ⟨ids, hbranch, hids⟩
  refine ⟨⟨fun hsome => ?_, ?_⟩, hsound⟩
  · obtain ⟨v, hv⟩ := Option.ne_none_iff_exists'.mp hsome
    exact ⟨v, hsound v hv⟩
  · rintro ⟨v, hreach⟩
    exact Option.isSome_iff_ne_none.mp (volume_ancestry_of_reaches hnamed hbound hinside hreach)

/-- What the depth of a chain to a volume says of the branches of its item. -/
structure DeepestAlong (g : ItemGraph) (maxDepth item : Int) (depth : Nat) : Prop where
  /-- It is the length of the longest route. -/
  route : IsGreatest (g.routeSteps (g.settlingOrder maxDepth item) item) depth
  /-- No branch to a volume that takes no id twice is longer exactly when a longest one of these is
  a route. -/
  simple : IsGreatest (g.simpleSteps item) depth ↔
    ∃ n ∈ g.routeSteps (g.settlingOrder maxDepth item) item, n ∈ upperBounds (g.simpleSteps item)
  /-- One without a link on a cycle is not longer. -/
  offCycles : ∀ ids, g.Branch item ids → (g.volumeAmong ids).isSome → g.OffCycles item ids →
    g.steps ids ≤ depth
  acyclic : g.AcyclicAbove item → IsGreatest (g.simpleSteps item) depth

/-- How deep an item lies below the volumes that can be reached from it. -/
theorem resolve_deepestAlong {maxDepth : Int} {named : Finset Int} (earlier : List Int)
    (hnamed : ∀ i, g.isNamed i = true → i ∈ named) (hbound : named.card ≤ boundOf maxDepth)
    (hinside : g.isVolume item = false) (hreach : g.Reaches item v) :
    g.DeepestAlong maxDepth item
      (g.resolve maxDepth (g.memoAfter maxDepth earlier) item).1.depth := by
  rw [(g.resolvesAlike maxDepth earlier item).ancestry]
  obtain ⟨chains, hcomplete, -⟩ := g.exists_complete maxDepth hinside
  have hgreatest := depth_ancestry_isGreatest hnamed hbound hinside
    (volume_ancestry_of_reaches hnamed hbound hinside hreach)
  have hsubset := routeSteps_subset hcomplete.table.nodup hinside
  have hoff : ∀ ids, g.Branch item ids → (g.volumeAmong ids).isSome → g.OffCycles item ids →
      g.steps ids ≤ (g.ancestry maxDepth item).depth := by
    intro ids hbranch hv hoff
    exact hgreatest.2 ⟨ids, hcomplete.table.isRoute hcomplete.start hbranch hv hoff, rfl⟩
  refine ⟨hgreatest, ⟨fun hdepth => ⟨_, hgreatest.1, hdepth.2⟩, ?_⟩, hoff, fun hacyclic => ?_⟩
  · rintro ⟨n, hn, hupper⟩
    exact ⟨hsubset hgreatest.1, fun m hm => (hupper hm).trans (hgreatest.2 hn)⟩
  · refine ⟨hsubset hgreatest.1, ?_⟩
    rintro n ⟨ids, hbranch, hv, -, rfl⟩
    exact hoff ids hbranch hv (hacyclic.offCycles hbranch)

/-- Two folders in each other, one of which lies in a volume too, and a file in both. -/
def loop : ItemGraph where
  parents := (((∅ : Std.TreeMap Int (List Int)).insert 2 [3, 10]).insert 3 [2]).insert 4 [2, 3]
  name? := fun i =>
    ([(2, "A"), (3, "B"), (4, "x"), (10, "V")] : List (Int × Store.TextCell)).lookup i
  isVolume := (· == 10)

theorem mem_of_loop_named (i : Int) (hnamed : loop.isNamed i = true) :
    i ∈ ({2, 3, 4, 10} : Finset Int) := by
  have hfound := List.lookup_isSome_iff.mp hnamed
  simpa using hfound

theorem loop_reaches : loop.Reaches 4 10 :=
  ⟨2, .single ⟨by decide +kernel, by decide, by decide⟩, by decide +kernel, by decide, by decide⟩

/-- The volume is found though the folders lie in each other. -/
theorem resolve_findsReachable_loop :
    (∀ i, loop.isNamed i = true → i ∈ ({2, 3, 4, 10} : Finset Int)) ∧
    ({2, 3, 4, 10} : Finset Int).card ≤ boundOf 4 ∧ loop.isVolume 4 = false ∧
    loop.LeadsTo 2 3 ∧ loop.LeadsTo 3 2 ∧
    (loop.resolve 4 (loop.memoAfter 4 [3]) 4).1.volume = some 10 ∧
    ((some 10 : Option Int) ≠ none ↔ ∃ v, loop.Reaches 4 v) ∧
    ∀ v, some 10 = some v → loop.Reaches 4 v := by
  have hbound : ({2, 3, 4, 10} : Finset Int).card ≤ boundOf 4 := by decide
  have hvolume : (loop.resolve 4 (loop.memoAfter 4 [3]) 4).1.volume = some 10 := by decide +kernel
  have hfinds := resolve_findsReachable [3] mem_of_loop_named hbound
    (show loop.isVolume 4 = false from rfl)
  rw [hvolume] at hfinds
  exact ⟨mem_of_loop_named, hbound, rfl, ⟨by decide +kernel, by decide, by decide⟩,
    ⟨by decide +kernel, by decide, by decide⟩, hvolume, hfinds⟩

/-- The folder that was opened first is settled last, and the branch through the other one is no
route. -/
theorem resolve_deepestAlong_loop :
    (∀ i, loop.isNamed i = true → i ∈ ({2, 3, 4, 10} : Finset Int)) ∧
    ({2, 3, 4, 10} : Finset Int).card ≤ boundOf 100 ∧ loop.isVolume 4 = false ∧
    loop.Reaches 4 10 ∧ loop.settlingOrder 100 4 = [4, 2, 3] ∧
    (loop.resolve 100 (loop.memoAfter 100 [3]) 4).1 = ⟨["A", "x"], some 10, 2⟩ ∧
    loop.DeepestAlong 100 4 2 := by
  have hbound : ({2, 3, 4, 10} : Finset Int).card ≤ boundOf 100 := by decide
  have hresolve : (loop.resolve 100 (loop.memoAfter 100 [3]) 4).1 = ⟨["A", "x"], some 10, 2⟩ := by
    decide +kernel
  have hdeepest := resolve_deepestAlong [3] mem_of_loop_named hbound
    (show loop.isVolume 4 = false from rfl) loop_reaches
  rw [hresolve] at hdeepest
  exact ⟨mem_of_loop_named, hbound, rfl, loop_reaches, by decide +kernel, hresolve, hdeepest⟩

/-- A branch of three steps to the volume takes no id twice and is missed. -/
theorem loop_misses_deepest :
    (∀ i, loop.isNamed i = true → i ∈ ({2, 3, 4, 10} : Finset Int)) ∧
    ({2, 3, 4, 10} : Finset Int).card ≤ 100 ∧ loop.isVolume 4 = false ∧ loop.Reaches 4 10 ∧
    ¬ IsGreatest (loop.simpleSteps 4) (loop.resolve 100 ∅ 4).1.depth := by
  refine ⟨mem_of_loop_named, by decide, rfl, loop_reaches, fun hgreatest => ?_⟩
  have hbranch : loop.Branch 4 [3, 2, 10] :=
    .up ⟨by decide +kernel, by decide, by decide⟩ (.up ⟨by decide +kernel, by decide, by decide⟩
      (.volume (by decide +kernel) (by decide) (by decide)))
  have hthree : 3 ∈ loop.simpleSteps 4 :=
    ⟨[3, 2, 10], hbranch, by decide, by decide, by decide⟩
  have hdepth : (loop.resolve 100 ∅ 4).1.depth = 2 := by decide +kernel
  have hle := hgreatest.2 hthree
  omega

end DiskCatalog.Index.ItemGraph
