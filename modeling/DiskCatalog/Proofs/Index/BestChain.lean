import Mathlib.Data.List.MinMax
import Mathlib.Data.Prod.Lex
import DiskCatalog.Proofs.Index.Walk

/-!
# Best chains

A chain that has a volume ranks above one that has none, and among those the one with more steps
ranks higher.  The best chain of an item is the one through the first of the parents through which
the rank is highest.
-/

namespace DiskCatalog.Index

variable {g : ItemGraph} {bound : Nat}

/-! ## Ranks -/

namespace Ancestry

def rank (a : Ancestry) : Bool ×ₗ Nat :=
  toLex (a.volume.isSome, a.depth)

variable {a b : Ancestry}

theorem outranks_iff : a.outranks b ↔ b.rank < a.rank := by
  rw [rank, rank, Prod.Lex.toLex_lt_toLex, outranks]
  cases a.volume.isSome <;> cases b.volume.isSome <;> simp

theorem of_rank_le (hle : a.rank ≤ b.rank) (ha : a.volume.isSome) :
    b.volume.isSome ∧ a.depth ≤ b.depth := by
  rw [rank, rank, Prod.Lex.toLex_le_toLex, ha] at hle
  rcases hle with hless | ⟨hsame, hdepth⟩
  · exact absurd hless (not_lt_of_ge (Bool.le_true _))
  · exact ⟨hsame.symm, hdepth⟩

theorem foldl_better (chain : Int → Ancestry) (parents : List Int) :
    (parents.map chain).foldl (fun best chain => some (better best chain)) none =
      (parents.argmax fun p => (chain p).rank).map chain := by
  induction parents using List.reverseRecOn with
  | nil => rfl
  | append_singleton parents p ih =>
      rw [List.map_append, List.foldl_append, ih, List.argmax_concat]
      cases parents.argmax fun p => (chain p).rank with
      | none => rfl
      | some best =>
          simp only [List.map_cons, List.map_nil, List.foldl_cons, List.foldl_nil, better,
            Option.map_some, outranks_iff]
          split <;> rfl

end Ancestry

namespace ItemGraph

variable {above : Int → Option Ancestry} {item p : Int}

/-! ## The parent that is chosen -/

theorem bestOf_of_root (hroot : g.parentsOf item = []) :
    g.bestOf bound above item = .alone (g.nameOf item) := by
  rw [bestOf, hroot]
  rfl

/-- A best chain goes through the first of the parents that give the highest rank. -/
theorem exists_chosen (bound : Nat) (above : Int → Option Ancestry)
    (hparents : g.parentsOf item ≠ []) :
    ∃ p ∈ g.parentsOf item,
      g.bestOf bound above item = g.chainThrough bound above (g.nameOf item) p ∧
      ∀ q ∈ g.parentsOf item,
        (g.bestOf bound above item).rank ≤ (g.chainThrough bound above (g.nameOf item) q).rank →
          (g.parentsOf item).idxOf p ≤ (g.parentsOf item).idxOf q := by
  cases hchosen : (g.parentsOf item).argmax
      (fun p => (g.chainThrough bound above (g.nameOf item) p).rank) with
  | none => exact absurd (List.argmax_eq_none.mp hchosen) hparents
  | some p =>
      have hbest : g.bestOf bound above item = g.chainThrough bound above (g.nameOf item) p := by
        simp only [bestOf, Ancestry.foldl_better, hchosen, Option.map_some, Option.getD_some]
      refine ⟨p, List.argmax_mem hchosen, hbest, fun q hq hle => ?_⟩
      rw [hbest] at hle
      exact List.index_of_argmax hchosen hq hle

theorem rank_chainThrough_le (bound : Nat) (above : Int → Option Ancestry)
    (hp : p ∈ g.parentsOf item) :
    (g.chainThrough bound above (g.nameOf item) p).rank ≤ (g.bestOf bound above item).rank := by
  cases hchosen : (g.parentsOf item).argmax
      (fun p => (g.chainThrough bound above (g.nameOf item) p).rank) with
  | none =>
      rw [List.argmax_eq_none.mp hchosen] at hp
      contradiction
  | some best =>
      have hle := List.le_of_mem_argmax hp hchosen
      simpa only [bestOf, Ancestry.foldl_better, hchosen, Option.map_some,
        Option.getD_some] using hle

/-! ## Chains through one parent -/

theorem chainThrough_of_missing (name : Store.TextCell) (hmissing : g.isNamed p = false) :
    g.chainThrough bound above name p = .alone name := by
  simp [chainThrough, hmissing]

theorem chainThrough_of_volume (name : Store.TextCell) (hnamed : g.isNamed p = true)
    (hvolume : g.isVolume p = true) :
    g.chainThrough bound above name p = ⟨[name], some p, 1⟩ := by
  simp [chainThrough, hnamed, hvolume]

theorem chainThrough_of_link {a : Ancestry} (name : Store.TextCell) (hlink : g.LeadsTo item p)
    (ha : above p = some a) (hdepth : a.depth < bound) :
    g.chainThrough bound above name p = ⟨a.segments ++ [name], a.volume, a.depth + 1⟩ := by
  have hkept : ¬ bound < a.depth + 1 := Nat.not_lt.mpr hdepth
  simp only [chainThrough, hlink.named, hlink.inside, ha, Ancestry.extend, if_neg hkept,
    Bool.not_true, Bool.false_eq_true, if_false, Option.map_some, Option.getD_some]

/-- A best chain starts at the item, starts below a volume, or goes on from the chain of a
parent. -/
@[elab_as_elim]
theorem bestOf_cases {motive : Ancestry → Prop} (alone : motive (.alone (g.nameOf item)))
    (below : ∀ p ∈ g.parentsOf item, g.isNamed p = true → g.isVolume p = true →
      motive ⟨[g.nameOf item], some p, 1⟩)
    (extend : ∀ p a, g.LeadsTo item p → above p = some a →
      motive (a.extend bound (g.nameOf item))) :
    motive (g.bestOf bound above item) := by
  by_cases hroot : g.parentsOf item = []
  · rw [bestOf_of_root hroot]
    exact alone
  · obtain ⟨p, hp, hbest, -⟩ := exists_chosen bound above hroot
    rw [hbest]
    cases hnamed : g.isNamed p with
    | false =>
        rw [chainThrough_of_missing _ hnamed]
        exact alone
    | true =>
        cases hvolume : g.isVolume p with
        | true =>
            rw [chainThrough_of_volume _ hnamed hvolume]
            exact below p hp hnamed hvolume
        | false =>
            simp only [chainThrough, hnamed, hvolume, Bool.not_true, Bool.false_eq_true, if_false]
            cases ha : above p with
            | none => exact alone
            | some a => exact extend p a ⟨hp, hnamed, hvolume⟩ ha

theorem volume_chainThrough {name : Store.TextCell} {v : Int} (hp : p ∈ g.parentsOf item)
    (hv : (g.chainThrough bound above name p).volume = some v) :
    (p = v ∧ g.isNamed p = true ∧ g.isVolume p = true ∧
      (g.chainThrough bound above name p).depth = 1) ∨
    (g.LeadsTo item p ∧ ∃ a, above p = some a ∧ a.volume = some v ∧ a.depth < bound ∧
      (g.chainThrough bound above name p).depth = a.depth + 1) := by
  cases hnamed : g.isNamed p with
  | false =>
      rw [chainThrough_of_missing name hnamed] at hv
      contradiction
  | true =>
      cases hinside : g.isVolume p with
      | true =>
          rw [chainThrough_of_volume name hnamed hinside] at hv ⊢
          exact Or.inl ⟨Option.some.inj hv, rfl, rfl, rfl⟩
      | false =>
          have hlink : g.LeadsTo item p := ⟨hp, hnamed, hinside⟩
          cases ha : above p with
          | none => simp [chainThrough, hnamed, hinside, ha, Ancestry.alone] at hv
          | some a =>
              by_cases hdepth : a.depth < bound
              · rw [chainThrough_of_link name hlink ha hdepth] at hv ⊢
                exact Or.inr ⟨hlink, a, rfl, hv, hdepth, rfl⟩
              · -- beyond the bound the volume is given up
                have hcut : bound < a.depth + 1 := by omega
                simp only [chainThrough, hnamed, hinside, ha, Ancestry.extend, if_pos hcut,
                  Bool.not_true, Bool.false_eq_true, if_false, Option.map_some,
                  Option.getD_some] at hv
                contradiction

/-! A best chain has a volume exactly when a parent is one, or when the chain of a parent has one
and is shorter than the bound; it is longer than all of these. -/

theorem volume_bestOf {v : Int} (hv : (g.bestOf bound above item).volume = some v) :
    (v ∈ g.parentsOf item ∧ g.isNamed v = true ∧ g.isVolume v = true ∧
      (g.bestOf bound above item).depth = 1) ∨
    ∃ p a, g.LeadsTo item p ∧ above p = some a ∧ a.volume = some v ∧ a.depth < bound ∧
      (g.bestOf bound above item).depth = a.depth + 1 := by
  have hparents : g.parentsOf item ≠ [] := by
    intro hroot
    rw [bestOf_of_root hroot] at hv
    contradiction
  obtain ⟨p, hp, hbest, -⟩ := exists_chosen bound above hparents
  rw [hbest] at hv ⊢
  rcases volume_chainThrough hp hv with ⟨rfl, hnamed, hvolume, hdepth⟩ | ⟨hlink, a, ha, hrest⟩
  · exact Or.inl ⟨hp, hnamed, hvolume, hdepth⟩
  · exact Or.inr ⟨p, a, hlink, ha, hrest⟩

theorem bestOf_of_volume {v : Int} (hv : v ∈ g.parentsOf item) (hnamed : g.isNamed v = true)
    (hvolume : g.isVolume v = true) :
    (g.bestOf bound above item).volume.isSome ∧ 1 ≤ (g.bestOf bound above item).depth := by
  have hrank := rank_chainThrough_le bound above hv
  rw [chainThrough_of_volume _ hnamed hvolume] at hrank
  exact Ancestry.of_rank_le hrank rfl

theorem bestOf_of_link {a : Ancestry} (hlink : g.LeadsTo item p) (ha : above p = some a)
    (hdepth : a.depth < bound) (hv : a.volume.isSome) :
    (g.bestOf bound above item).volume.isSome ∧
      a.depth + 1 ≤ (g.bestOf bound above item).depth := by
  have hrank := rank_chainThrough_le bound above hlink.parent
  rw [chainThrough_of_link _ hlink ha hdepth] at hrank
  exact Ancestry.of_rank_le hrank hv

end ItemGraph

end DiskCatalog.Index
