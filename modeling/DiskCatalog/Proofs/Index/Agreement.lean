import DiskCatalog.Proofs.Index.FolderSize
import DiskCatalog.Proofs.Index.Resolution

/-!
# Graphs that agree

A walk asks a graph for the parents, the name and the kind of single items only.  Graphs that answer
alike therefore lead every walk through the same steps, though the number of steps that is allowed
for may differ: a walk that has ended makes no more of them.
-/

namespace DiskCatalog.Index

variable {g g' : ItemGraph} {bound : Nat}

/-- Two graphs give the same answers about every item. -/
structure ItemGraph.Agrees (g g' : ItemGraph) : Prop where
  parents : g'.parentsOf = g.parentsOf
  name? : g'.name? = g.name?
  isVolume : g'.isVolume = g.isVolume

namespace ItemGraph.Agrees

theorem isNamed (hagree : g.Agrees g') : g'.isNamed = g.isNamed := by
  funext i
  rw [ItemGraph.isNamed, hagree.name?, ItemGraph.isNamed]

theorem nameOf (hagree : g.Agrees g') : g'.nameOf = g.nameOf := by
  funext i
  rw [ItemGraph.nameOf, hagree.name?, ItemGraph.nameOf]

/-! ## Steps -/

theorem through (hagree : g.Agrees g') (w : Walk) (name : Store.TextCell) (p : Int) :
    w.through g' bound name p = w.through g bound name p := by
  rw [Walk.through, hagree.isNamed, hagree.isVolume, Walk.through]

theorem bestOver (hagree : g.Agrees g') (w : Walk) (name : Store.TextCell) (best : Option Ancestry)
    (exact : Bool) (parents : List Int) :
    w.bestOver g' bound name best exact parents = w.bestOver g bound name best exact parents := by
  induction parents generalizing best exact with
  | nil => rfl
  | cons p parents ih => simp only [Walk.bestOver, hagree.through, ih]

theorem step (hagree : g.Agrees g') (w : Walk) : w.step g' bound = w.step g bound := by
  have hpending : ∀ (w : Walk) (item : Int), w.pending g' item = w.pending g item := by
    intro w item
    rw [Walk.pending, hagree.parents, hagree.isNamed, hagree.isVolume, Walk.pending]
  have hbest : ∀ (w : Walk) (item : Int), w.best g' bound item = w.best g bound item := by
    intro w item
    simp only [Walk.best, hagree.nameOf, hagree.parents, hagree.bestOver]
  simp only [Walk.step, Walk.settleBest, hpending, hbest]

theorem run (hagree : g.Agrees g') (fuel : Nat) (w : Walk) :
    w.run g' bound fuel = w.run g bound fuel := by
  induction fuel generalizing w with
  | zero => rfl
  | succ fuel ih => simp only [Walk.run, hagree.step, ih]

end ItemGraph.Agrees

/-! ## Ancestries -/

/-- Graphs that agree give every item the same ancestry. -/
theorem ItemGraph.Agrees.ancestry (hagree : g.Agrees g') (maxDepth : Int) (item : Int) :
    g'.ancestry maxDepth item = g.ancestry maxDepth item := by
  obtain ⟨-, hend, -⟩ := Walk.run_start g (boundOf maxDepth) ∅ item
  obtain ⟨-, hend', -⟩ := Walk.run_start g' (boundOf maxDepth) ∅ item
  rw [hagree.run] at hend'
  have hsame : Walk.run g (boundOf maxDepth) g'.maxSteps (.start ∅ item) =
      Walk.run g (boundOf maxDepth) g.maxSteps (.start ∅ item) := by
    rw [← Walk.run_of_le hend' (Nat.le_max_left _ g.maxSteps),
      Walk.run_of_le hend (Nat.le_max_right g'.maxSteps _)]
  simp only [ItemGraph.ancestry, resolve, resolveWithin, hagree.isVolume, hagree.nameOf,
    hagree.run, hsame]

/-! ## Folder sizes -/

/-- The totals of folders depend on the parents of single items only. -/
theorem FolderSize.total_congr {links links' : Store.Catalog.ParentLinks}
    (hparents : links'.parentsOf = links.parentsOf) (files : List (Int × Option Int))
    {folders : List Int} {folder : Int} (hfolder : folder ∈ folders) :
    (total links' files folders)[folder]? = (total links files folders)[folder]? := by
  have hreaches : Reaches links' = Reaches links := by
    rw [Reaches, Reaches, hparents]
  have hshare : share links' folder = share links folder := by
    funext file
    unfold share
    rw [hreaches]
  rw [getElem?_total links' files hfolder, getElem?_total links files hfolder, hshare]

end DiskCatalog.Index
