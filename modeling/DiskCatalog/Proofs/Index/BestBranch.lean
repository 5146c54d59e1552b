import DiskCatalog.Proofs.Index.Branch
import DiskCatalog.Proofs.Index.ResolutionOrder

/-!
# Best branches

Above an item that lies below no cycle, the chain of every item is certain, and chains are made of
chains step by step.  While no branch is longer than the bound nothing is cut off, so the best chain
of an item is the chain along its best branch: the one of highest rank that takes, wherever it has
the choice, the lowest parent.
-/

namespace DiskCatalog.Index.ItemGraph

variable {g : ItemGraph} {bound : Nat} {item p : Int} {ids : List Int}

/-! ## Items below no cycle -/

/-- Neither an item nor anything that it leads to is its own ancestor.  Links to volumes and to what
does not exist are left out, as branches end there. -/
def AcyclicAbove (g : ItemGraph) (item : Int) : Prop :=
  ∀ i, Relation.ReflTransGen g.LeadsTo item i → ¬ Relation.TransGen g.LeadsTo i i

theorem AcyclicAbove.parent (hacyclic : g.AcyclicAbove item) (hlink : g.LeadsTo item p) :
    g.AcyclicAbove p :=
  fun i hi => hacyclic i (.head hlink hi)

open Classical in
/-- The items with parents among those that an item leads to. -/
noncomputable def itemsAbove (g : ItemGraph) (item : Int) : Finset Int :=
  g.parents.keys.toFinset.filter (Relation.ReflTransGen g.LeadsTo item)

theorem mem_itemsAbove {i : Int} :
    i ∈ g.itemsAbove item ↔ i ∈ g.parents ∧ Relation.ReflTransGen g.LeadsTo item i := by
  simp [itemsAbove, Std.TreeMap.mem_keys]

theorem AcyclicAbove.card_itemsAbove_lt (hacyclic : g.AcyclicAbove item)
    (hlink : g.LeadsTo item p) : (g.itemsAbove p).card < (g.itemsAbove item).card := by
  apply Finset.card_lt_card
  refine (Finset.ssubset_iff_of_subset fun i hi => ?_).mpr ⟨item, ?_, fun hback => ?_⟩
  · obtain ⟨hkey, hclimb⟩ := mem_itemsAbove.mp hi
    exact mem_itemsAbove.mpr ⟨hkey, .head hlink hclimb⟩
  · exact mem_itemsAbove.mpr ⟨Store.Catalog.ParentLinks.mem_of_mem_parentsOf hlink.parent, .refl⟩
  · exact hacyclic item .refl (.head' hlink (mem_itemsAbove.mp hback).2)

theorem AcyclicAbove.isCertain (hacyclic : g.AcyclicAbove item) (bound : Nat) :
    g.IsCertain bound item := by
  induction hcount : (g.itemsAbove item).card using Nat.strong_induction_on generalizing item with
  | _ count ih =>
      have habove : ∀ p, g.LeadsTo item p →
          ∃ a, g.certainChain bound p = some a ∧ g.Certain bound p a := by
        intro p hlink
        have hfewer := hacyclic.card_itemsAbove_lt hlink
        obtain ⟨a, ha⟩ := ih _ (hcount ▸ hfewer) (hacyclic.parent hlink) rfl
        exact ⟨a, ha.chain_eq, ha⟩
      exact ⟨_, .of_above habove⟩

/-! A height that falls along every link rules cycles out and bounds the branches. -/

theorem AcyclicAbove.of_height {height : Int → Nat}
    (hheight : ∀ i p, g.LeadsTo i p → height p < height i) (item : Int) : g.AcyclicAbove item := by
  intro i _ hcycle
  have hfalls : ∀ {p}, Relation.TransGen g.LeadsTo i p → height p < height i := by
    intro p hclimb
    induction hclimb with
    | single hlink => exact hheight _ _ hlink
    | tail _ hlink ih => exact (hheight _ _ hlink).trans ih
  exact lt_irrefl _ (hfalls hcycle)

theorem Branch.steps_le_height {height : Int → Nat}
    (hheight : ∀ i p, g.LeadsTo i p → height p < height i) (hbranch : g.Branch item ids) :
    g.steps ids ≤ height item + 1 := by
  induction hbranch with
  | root => exact Nat.zero_le _
  | missing _ hmissing => rw [steps_missing hmissing]; exact Nat.zero_le _
  | volume _ hnamed => rw [steps_volume hnamed]; exact Nat.le_add_left _ _
  | up hlink _ ih =>
      have hless := hheight _ _ hlink
      rw [steps_up hlink]
      omega

/-- The ancestry of an item with a certain chain is that chain. -/
theorem Certain.ancestry_eq {maxDepth : Int} {a : Ancestry}
    (ha : g.Certain (boundOf maxDepth) item a) (hinside : g.isVolume item = false) :
    g.ancestry maxDepth item = a := by
  have hnone : Memo.IsSound g (boundOf maxDepth) ∅ := Memo.isSound_empty g _
  obtain ⟨hmoves, -, hsettled⟩ := Walk.run_start g (boundOf maxDepth) ∅ item
  have hfound := ((Walk.From.of_start hnone item).moves hmoves).find?_of_certain hsettled ha
  exact Option.some.inj ((find?_walkFrom hnone hinside).symm.trans hfound)

/-! ## The best branch -/

/-- A branch of highest rank that takes the lowest parent through which this rank is reached, at
every item along it. -/
structure IsBest (g : ItemGraph) (item : Int) (ids : List Int) : Prop where
  branch : g.Branch item ids
  highest : ∀ others, g.Branch item others → g.rankOf others ≤ g.rankOf ids
  lowest : ∀ taken p rest, ids = taken ++ p :: rest → ∀ q others,
    g.Branch item (taken ++ q :: others) → g.rankOf (taken ++ q :: others) = g.rankOf ids → p ≤ q

/-- A branch that is best among those that begin with the same parent. -/
structure IsBestThrough (g : ItemGraph) (item p : Int) (ids : List Int) : Prop where
  branch : g.Branch item (p :: ids)
  highest : ∀ others, g.Branch item (p :: others) → g.rankOf (p :: others) ≤ g.rankOf (p :: ids)
  lowest : ∀ taken q rest, ids = taken ++ q :: rest → ∀ r others,
    g.Branch item (p :: taken ++ r :: others) →
      g.rankOf (p :: taken ++ r :: others) = g.rankOf (p :: ids) → q ≤ r

theorem Branch.eq_nil_of_not_link (hbranch : g.Branch item (p :: ids))
    (hlink : ¬ g.LeadsTo item p) : ids = [] := by
  cases hbranch with
  | missing | volume => rfl
  | up hup => exact absurd hup hlink

/-- A branch ends with a parent through which none goes on. -/
theorem IsBestThrough.of_end (hbranch : g.Branch item [p]) (hlink : ¬ g.LeadsTo item p) :
    g.IsBestThrough item p [] where
  branch := hbranch
  highest := fun others hothers => by rw [hothers.eq_nil_of_not_link hlink]
  lowest := fun taken q rest hsplit => by simp at hsplit

theorem IsBest.up (hbest : g.IsBest p ids) (hlink : g.LeadsTo item p) :
    g.IsBestThrough item p ids where
  branch := .up hlink hbest.branch
  highest := fun others hothers =>
    (rankOf_up_le hlink).mpr (hbest.highest others (hothers.of_cons hlink))
  lowest := fun taken q rest hsplit r others hothers hrank =>
    hbest.lowest taken q rest hsplit r others (hothers.of_cons hlink)
      (le_antisymm ((rankOf_up_le hlink).mp hrank.le) ((rankOf_up_le hlink).mp hrank.ge))

variable {above : Int → Option Ancestry}

/-- The chain through a parent is the one along the best branch through it. -/
theorem exists_isBestThrough (hp : p ∈ g.parentsOf item)
    (habove : g.LeadsTo item p → ∃ ids, g.IsBest p ids ∧ above p = some (g.chainAlong p ids))
    (hwithin : ∀ ids, g.Branch item ids → g.steps ids ≤ bound) :
    ∃ ids, g.IsBestThrough item p ids ∧
      g.chainThrough bound above (g.nameOf item) p = g.chainAlong item (p :: ids) := by
  cases hnamed : g.isNamed p with
  | false =>
      refine ⟨[], .of_end (.missing hp hnamed) (not_leadsTo_of_missing hnamed), ?_⟩
      rw [chainThrough_of_missing _ hnamed]
      simp [Ancestry.alone, chainAlong, volumeAmong_missing hnamed, steps_missing hnamed, hnamed]
  | true =>
      cases hvolume : g.isVolume p with
      | true =>
          refine ⟨[], .of_end (.volume hp hnamed hvolume) (not_leadsTo_of_volume hvolume), ?_⟩
          rw [chainThrough_of_volume _ hnamed hvolume]
          simp [chainAlong, volumeAmong_volume hnamed hvolume, steps_volume hnamed, hvolume]
      | false =>
          have hlink : g.LeadsTo item p := ⟨hp, hnamed, hvolume⟩
          obtain ⟨ids, hbest, hchain⟩ := habove hlink
          have hsteps := hwithin _ (.up hlink hbest.branch)
          rw [steps_up hlink] at hsteps
          refine ⟨ids, hbest.up hlink, ?_⟩
          rw [chainThrough_of_link _ hlink hchain hsteps, chainAlong_up hlink]

theorem idxOf_lt_idxOf {l : List Int} (hascending : l.Pairwise (· ≤ ·)) {i j : Int}
    (hj : j ∈ l) (hless : j < i) : l.idxOf j < l.idxOf i := by
  induction l with
  | nil => contradiction
  | cons k l ih =>
      rw [List.pairwise_cons] at hascending
      rcases List.mem_cons.mp hj with rfl | hj
      · rw [List.idxOf_cons_self, List.idxOf_cons_ne _ hless.ne]
        exact Nat.succ_pos _
      · have hk : k ≤ j := hascending.1 j hj
        by_cases heq : k = j
        · subst heq
          rw [List.idxOf_cons_self, List.idxOf_cons_ne _ hless.ne]
          exact Nat.succ_pos _
        · rw [List.idxOf_cons_ne _ heq, List.idxOf_cons_ne _ (hk.trans_lt hless).ne]
          exact Nat.succ_lt_succ (ih hascending.2 hj)

/-- The best chain of an item is the chain along its best branch when this holds of its parents. -/
theorem exists_isBest (hascending : (g.parentsOf item).Pairwise (· ≤ ·))
    (habove : ∀ p, g.LeadsTo item p →
      ∃ ids, g.IsBest p ids ∧ above p = some (g.chainAlong p ids))
    (hwithin : ∀ ids, g.Branch item ids → g.steps ids ≤ bound) :
    ∃ ids, g.IsBest item ids ∧ g.bestOf bound above item = g.chainAlong item ids := by
  have hthrough : ∀ p ∈ g.parentsOf item, ∃ ids, g.IsBestThrough item p ids ∧
      g.chainThrough bound above (g.nameOf item) p = g.chainAlong item (p :: ids) :=
    fun p hp => exists_isBestThrough hp (habove p) hwithin
  by_cases hroot : g.parentsOf item = []
  · refine ⟨[], ⟨.root hroot, ?_, ?_⟩, bestOf_of_root hroot⟩
    · intro others hothers
      cases hothers with
      | root => exact le_rfl
      | missing hparent | volume hparent => simp [hroot] at hparent
      | up hlink => simpa [hroot] using hlink.parent
    · intro taken p rest hsplit
      simp at hsplit
  · obtain ⟨p, hp, hchosen, hfirst⟩ := exists_chosen bound above hroot
    obtain ⟨ids, hbest, hchain⟩ := hthrough p hp
    have hbestOf := hchosen.trans hchain
    -- no branch through another parent ranks above the chain through that parent
    have hrank : ∀ q others, g.Branch item (q :: others) →
        g.rankOf (q :: others) ≤ (g.chainThrough bound above (g.nameOf item) q).rank := by
      intro q others hothers
      obtain ⟨best, hbest, hchain⟩ := hthrough q hothers.parent
      rw [hchain, rank_chainAlong]
      exact hbest.highest others hothers
    refine ⟨p :: ids, ⟨hbest.branch, ?_, ?_⟩, hbestOf⟩
    · intro others hothers
      cases others with
      | nil =>
          cases hothers with
          | root hnone => exact absurd hnone hroot
      | cons q others =>
          calc g.rankOf (q :: others)
              ≤ (g.chainThrough bound above (g.nameOf item) q).rank := hrank q others hothers
            _ ≤ (g.bestOf bound above item).rank := rank_chainThrough_le bound above hothers.parent
            _ = g.rankOf (p :: ids) := by rw [hbestOf, rank_chainAlong]
    · intro taken r rest hsplit q others hothers hsame
      cases taken with
      | nil =>
          rw [List.nil_append, List.cons.injEq] at hsplit
          obtain ⟨rfl, -⟩ := hsplit
          have hle : (g.bestOf bound above item).rank ≤
              (g.chainThrough bound above (g.nameOf item) q).rank := by
            rw [hbestOf, rank_chainAlong, ← hsame]
            exact hrank q others hothers
          by_contra hless
          have hbefore := idxOf_lt_idxOf hascending hothers.parent (not_le.mp hless)
          exact absurd (hfirst q hothers.parent hle) (not_le.mpr hbefore)
      | cons first taken =>
          rw [List.cons_append, List.cons.injEq] at hsplit
          obtain ⟨rfl, hsplit⟩ := hsplit
          exact hbest.lowest taken r rest hsplit q others hothers hsame

theorem Certain.exists_isBest {a : Ancestry} (ha : g.Certain bound item a)
    (hascending : ∀ i, (g.parentsOf i).Pairwise (· ≤ ·))
    (hwithin : ∀ ids, g.Branch item ids → g.steps ids ≤ bound) :
    ∃ ids, g.IsBest item ids ∧ a = g.chainAlong item ids := by
  induction ha with
  | @intro item above _ ih =>
      apply ItemGraph.exists_isBest (hascending item) _ hwithin
      intro p hlink
      obtain ⟨ids, hbest, hchain⟩ := ih p hlink fun ids hids => by
        have hsteps := hwithin _ (.up hlink hids)
        rw [steps_up hlink] at hsteps
        omega
      exact ⟨ids, hbest, congrArg some hchain⟩

/-- Where no branch is longer than the bound, an item below no cycle resolves to the chain along its
best branch, whatever was resolved before. -/
theorem resolve_isBest (maxDepth : Int) (earlier : List Int) (hinside : g.isVolume item = false)
    (hacyclic : g.AcyclicAbove item) (hascending : ∀ i, (g.parentsOf i).Pairwise (· ≤ ·))
    (hwithin : ∀ ids, g.Branch item ids → g.steps ids ≤ boundOf maxDepth) :
    ∃ ids, g.IsBest item ids ∧
      (g.resolve maxDepth (g.memoAfter maxDepth earlier) item).1 = g.chainAlong item ids := by
  obtain ⟨a, ha⟩ := hacyclic.isCertain (boundOf maxDepth)
  obtain ⟨ids, hbest, rfl⟩ := ha.exists_isBest hascending hwithin
  refine ⟨ids, hbest, ?_⟩
  rw [(g.resolvesAlike maxDepth earlier item).ancestry]
  exact ha.ancestry_eq hinside

/-- Two folders in one folder of a volume, a third folder in the volume itself, and a file in all
three and in one that is lost. -/
def lattice : ItemGraph where
  parents := (((((∅ : Std.TreeMap Int (List Int)).insert 2 [1]).insert 3 [2]).insert 4 [2]).insert 5
    [1]).insert 9 [3, 4, 5, 7]
  name? := fun i =>
    ([(1, "v"), (2, "a"), (3, "b"), (4, "c"), (5, "d"), (9, "x")] :
      List (Int × Store.TextCell)).lookup i
  isVolume := (· == 1)

theorem lattice_height (i p : Int) (hlink : lattice.LeadsTo i p) : p.toNat < i.toNat := by
  have hlinks : ∀ link ∈ lattice.parents.toList, ∀ p ∈ link.2,
      lattice.isVolume p = false → p.toNat < link.1.toNat := by
    decide +kernel
  exact hlinks _ (mem_links (List.ne_nil_of_mem hlink.parent)) p hlink.parent hlink.inside

theorem resolve_isBest_lattice :
    lattice.isVolume 9 = false ∧ lattice.AcyclicAbove 9 ∧
    (∀ i, (lattice.parentsOf i).Pairwise (· ≤ ·)) ∧
    (∀ ids, lattice.Branch 9 ids → lattice.steps ids ≤ boundOf 10) ∧
    (lattice.resolve 10 (lattice.memoAfter 10 [5, 4]) 9).1 = ⟨["a", "b", "x"], some 1, 3⟩ ∧
    ∃ ids, lattice.IsBest 9 ids ∧ lattice.chainAlong 9 ids = ⟨["a", "b", "x"], some 1, 3⟩ := by
  have hinside : lattice.isVolume 9 = false := rfl
  have hacyclic : lattice.AcyclicAbove 9 := .of_height lattice_height 9
  have hascending : ∀ i, (lattice.parentsOf i).Pairwise (· ≤ ·) := by
    have hlinks : ∀ link ∈ lattice.parents.toList, link.2.Pairwise (· ≤ ·) := by decide +kernel
    intro i
    by_cases hparents : lattice.parentsOf i = []
    · rw [hparents]
      exact .nil
    · exact hlinks _ (mem_links hparents)
  have hwithin : ∀ ids, lattice.Branch 9 ids → lattice.steps ids ≤ boundOf 10 :=
    fun _ hbranch => hbranch.steps_le_height lattice_height
  have hresolve : (lattice.resolve 10 (lattice.memoAfter 10 [5, 4]) 9).1 =
      ⟨["a", "b", "x"], some 1, 3⟩ := by
    decide +kernel
  obtain ⟨ids, hbest, hchain⟩ := resolve_isBest 10 [5, 4] hinside hacyclic hascending hwithin
  exact ⟨hinside, hacyclic, hascending, hwithin, hresolve, ids, hbest, hchain.symm.trans hresolve⟩

end DiskCatalog.Index.ItemGraph
