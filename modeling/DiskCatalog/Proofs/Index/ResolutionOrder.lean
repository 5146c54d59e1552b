import DiskCatalog.Proofs.Index.Exclusion

/-!
# The order of resolution

What has been remembered while other items were resolved changes nothing for an item: it resolves
to the ancestry that it has on its own, by a walk that ends.  So the entries of a generation, and
their paths with them, are the same in whatever order the items come.
-/

namespace DiskCatalog.Index

open Store

namespace ItemGraph

variable {g : ItemGraph} {maxDepth : Int}

/-- What is remembered once some items have been resolved one after the other. -/
def memoAfter (g : ItemGraph) (maxDepth : Int) (earlier : List Int) : Memo :=
  earlier.foldl (fun memo item => (g.resolve maxDepth memo item).2) ∅

theorem memoAfter_isSound (g : ItemGraph) (maxDepth : Int) (earlier : List Int) :
    (g.memoAfter maxDepth earlier).IsSound g (boundOf maxDepth) := by
  have hfold : ∀ (items : List Int) (memo : Memo), memo.IsSound g (boundOf maxDepth) →
      (items.foldl (fun memo item => (g.resolve maxDepth memo item).2) memo).IsSound g
        (boundOf maxDepth) := by
    intro items
    induction items with
    | nil => exact fun memo hmemo => hmemo
    | cons item items ih => exact fun memo hmemo => ih _ (resolveWithin_isSound hmemo item)
  exact hfold earlier ∅ (Memo.isSound_empty g _)

/-- The walk by which an item is resolved. -/
def walkFrom (g : ItemGraph) (maxDepth : Int) (memo : Memo) (item : Int) : Walk :=
  Walk.run g (boundOf maxDepth) g.maxSteps (.start memo item)

/-- An item resolves after others as it does on its own, and its walk comes to an end with the
chain that is returned. -/
structure ResolvesAlike (g : ItemGraph) (maxDepth : Int) (earlier : List Int) (item : Int) :
    Prop where
  ancestry : (g.resolve maxDepth (g.memoAfter maxDepth earlier) item).1 =
    (g.resolve maxDepth ∅ item).1
  ends : (g.walkFrom maxDepth (g.memoAfter maxDepth earlier) item).stack = []
  found : g.isVolume item = false →
    (g.walkFrom maxDepth (g.memoAfter maxDepth earlier) item).find? item =
      some (g.resolve maxDepth ∅ item).1

/-- The walk of an item that is no volume finds its ancestry. -/
theorem find?_walkFrom {memo : Memo} (hmemo : memo.IsSound g (boundOf maxDepth)) {item : Int}
    (hinside : g.isVolume item = false) :
    (g.walkFrom maxDepth memo item).find? item = some (g.resolve maxDepth ∅ item).1 := by
  obtain ⟨-, -, hsettled⟩ := Walk.run_start g (boundOf maxDepth) ∅ item
  obtain ⟨chain, hchain⟩ := Option.isSome_iff_exists.mp (Walk.isSome_find?.mpr hsettled)
  have hempty : (∅ : Memo).get? item = none := Std.TreeMap.getElem?_emptyc
  have hresolve : (g.resolve maxDepth ∅ item).1 = chain := by
    simp only [resolve, resolveWithin, hinside, Bool.false_eq_true, if_false, hempty, hchain,
      Option.getD_some]
  rw [walkFrom, Walk.find?_run hmemo item, hchain, hresolve]

theorem resolvesAlike (g : ItemGraph) (maxDepth : Int) (earlier : List Int) (item : Int) :
    g.ResolvesAlike maxDepth earlier item where
  ancestry := resolveWithin_eq (g.memoAfter_isSound maxDepth earlier) item
  ends := (Walk.run_start g _ (g.memoAfter maxDepth earlier) item).2.1
  found := find?_walkFrom (g.memoAfter_isSound maxDepth earlier)

end ItemGraph

/-- The same entries are made of candidates that come in another order. -/
theorem entries_perm {r : Readings} {maxDepth : Int} {candidates : List Candidate}
    (hperm : candidates.Perm r.candidates) {entries : List Entry}
    (hentries : r.entries maxDepth = .ok entries) :
    ∃ others, ({ r with candidates } : Readings).entries maxDepth = .ok others ∧
      others.Perm entries := by
  rw [entries_eq_mapM] at hentries ⊢
  exact exists_mapM_of_perm hperm hentries

/-- Whatever was resolved before, an item resolves as it does on its own, and the entries of a
generation do not depend on the order in which its items are resolved. -/
theorem order_is_irrelevant (maxDepth : Int) :
    (∀ (g : ItemGraph) (earlier : List Int) (item : Int), g.ResolvesAlike maxDepth earlier item) ∧
    ∀ (r : Readings) (candidates : List Candidate), candidates.Perm r.candidates →
      ∀ entries, r.entries maxDepth = .ok entries →
        ∃ others, ({ r with candidates } : Readings).entries maxDepth = .ok others ∧
          others.Perm entries :=
  ⟨fun g => g.resolvesAlike maxDepth, fun _ _ hperm _ hentries => entries_perm hperm hentries⟩

/-- Two folders that lie in each other, one of them in a volume as well, and a file below them. -/
def ring : Readings where
  candidates :=
    [⟨2, "b", .folder, none, none, none, none⟩, ⟨3, "a", .folder, none, none, none, none⟩,
     ⟨4, "c", .file, none, some 7, none, none⟩]
  links := (((∅ : Catalog.ParentLinks).insert 2 [3, 10]).insert 3 [2]).insert 4 [3]
  names := ((((∅ : Catalog.ItemNames).insert 2 ⟨"b", 200⟩).insert 3 ⟨"a", 200⟩).insert 4
    ⟨"c", 1⟩).insert 10 ⟨"v", 172⟩
  volumes := (∅ : Catalog.Volumes).insert 10 ⟨none, none⟩

theorem order_is_irrelevant_ring :
    (ring.graph.resolve 100 (ring.graph.memoAfter 100 [3, 2]) 4).1 = ⟨["b", "a", "c"], some 10, 3⟩ ∧
      ∃ entries others, ring.entries 100 = .ok entries ∧
        ({ ring with candidates := ring.candidates.reverse } : Readings).entries 100 = .ok others ∧
        entries.map (·.fullPath) = [some "b", some "b/a", some "b/a/c"] ∧ others.Perm entries := by
  have halone : (ring.graph.resolve 100 ∅ 4).1 = ⟨["b", "a", "c"], some 10, 3⟩ := by
    decide +kernel
  have hring : (ring.entries 100).map (fun entries => entries.map (·.fullPath)) =
      .ok [some "b", some "b/a", some "b/a/c"] := by
    decide +kernel
  obtain ⟨entries, hentries, hpaths⟩ := map_eq_ok_iff.mp hring
  obtain ⟨others, hothers, hperm⟩ := (order_is_irrelevant 100).2 ring ring.candidates.reverse
    (List.reverse_perm ring.candidates) entries hentries
  refine ⟨?_, entries, others, hentries, hothers, hpaths, hperm⟩
  rw [((order_is_irrelevant 100).1 ring.graph [3, 2] 4).ancestry, halone]

end DiskCatalog.Index
