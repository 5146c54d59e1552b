import DiskCatalog.Proofs.Index.Generation
import DiskCatalog.Proofs.Refresh.Survival

/-!
# Pages of results

Entries with different numbers stand in a strict order, the larger ones first and equal ones by
number, so what a query finds has one ranking.  A search of an unchanged catalog answers with a
slice of it, and pages that are turned one after the other until one is empty show it whole, each
entry once.
-/

namespace DiskCatalog

open Index Pattern

namespace Search

/-! ## Rankings -/

/-- An entry is shown before another. -/
def Before (a b : Entry) : Prop :=
  shownSize b < shownSize a ∨ (shownSize a = shownSize b ∧ a.id < b.id)

instance (a b : Entry) : Decidable (Before a b) :=
  inferInstanceAs (Decidable (shownSize b < shownSize a ∨ (shownSize a = shownSize b ∧ a.id < b.id)))

/-- A ranking of some entries holds each of them once, in the order in which they are shown. -/
structure IsRanking (ranked entries : List Entry) : Prop where
  perm : ranked.Perm entries
  ordered : ranked.Pairwise Before

/-- Entries with different numbers have one ranking only. -/
theorem IsRanking.unique {ranked ranked' entries : List Entry} (hranked : IsRanking ranked entries)
    (hranked' : IsRanking ranked' entries) : ranked = ranked' := by
  apply List.Perm.eq_of_pairwise _ hranked.ordered hranked'.ordered
    (hranked.perm.trans hranked'.perm.symm)
  intro a b _ _ hab hba
  exfalso
  rcases hab with hab | ⟨heq, hab⟩ <;> rcases hba with hba | ⟨heq', hba⟩ <;> omega

end Search

namespace Refresh

open Store Search

namespace Coordinator

/-- A file of unknown size, two of one size and a larger one. -/
def tied : Target :=
  .file ⟨1, 1, .database {
    tables := (Catalog.ofRows [] [] [] []).tables
    items := [⟨1, .int 1, some "a"⟩, ⟨2, .int 1, some "ab"⟩, ⟨3, .int 1, some "ca"⟩,
      ⟨4, .int 1, some "d"⟩]
    infos := [⟨.int 2, none, none, none, .int 5⟩, ⟨.int 3, none, none, none, .int 5⟩,
      ⟨.int 4, none, none, none, .int 9⟩]
    links := []
    volumes := [] }⟩

/-- The entry that is made of a file of the tied ones. -/
def tiedEntry (id : Int) (name : String) (size : Option Int) : Entry :=
  ⟨id, name, .file, size, none, none, some name, none, none⟩

/-- A coordinator after its first build of the tied files. -/
def ofTied : Coordinator :=
  ((ofPlan ⟨"c", ⟨[], 0, 100⟩, .ofInt 1, false, 3⟩).rebuild .first fun _ => tied).1

theorem ofTied_unchanged : (ofTied.keeper.hasChanged fun _ => tied).1 = false := by
  decide +kernel

theorem exists_ofTied_serves :
    ∃ g, ofTied.Serves g ∧ (buildSeen "c" ⟨[], 0, 100⟩ (.still tied)).result = .ok g ∧
      g.entries = [tiedEntry 1 "a" none, tiedEntry 2 "ab" (some 5), tiedEntry 3 "ca" (some 5),
        tiedEntry 4 "d" (some 9)] := by
  have hend : ofTied.slot.held?.map (fun h => (h.lifetime.closed, h.generation.entries,
        decide ((build "c" ⟨[], 0, 100⟩ tied).result.toOption = some h.generation))) =
      some (false, [tiedEntry 1 "a" none, tiedEntry 2 "ab" (some 5), tiedEntry 3 "ca" (some 5),
        tiedEntry 4 "d" (some 9)], true) := by
    decide +kernel
  obtain ⟨h, hheld, hfacts⟩ := Option.map_eq_some_iff.mp hend
  simp only [Prod.mk.injEq, decide_eq_true_eq] at hfacts
  obtain ⟨hopen, hentries, hbuilt⟩ := hfacts
  refine ⟨h.generation, ⟨h, hheld, rfl, hopen⟩, ?_, hentries⟩
  cases hresult : (build "c" ⟨[], 0, 100⟩ tied).result with
  | error f => simp [hresult, Except.toOption] at hbuilt
  | ok g =>
      rw [hresult] at hbuilt
      obtain rfl := Option.some.inj hbuilt
      exact hresult

end Coordinator

end Refresh

end DiskCatalog
