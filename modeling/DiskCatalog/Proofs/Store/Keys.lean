import DiskCatalog.Proofs.Fallible
import DiskCatalog.Store.Reading

/-!
# Catalogs keyed by items

The number of an item is the key of its row, and the items of a catalog are kept by their keys.
The candidates that are enumerated from such a catalog ascend strictly: of an item that is joined
with several rows only one becomes a candidate.
-/

namespace DiskCatalog.Store

open Pattern

/-- The items are kept by their numbers, which are all different. -/
def Catalog.IsKeyed (c : Catalog) : Prop :=
  c.items.Pairwise (·.id < ·.id)

instance (c : Catalog) : Decidable c.IsKeyed :=
  inferInstanceAs (Decidable (c.items.Pairwise (·.id < ·.id)))

/-- Where a target holds a catalog, that is keyed by its items. -/
def Target.IsKeyed : Target → Prop
  | .file ⟨_, _, .database c⟩ => c.IsKeyed
  | _ => True

instance : (target : Target) → Decidable target.IsKeyed
  | .file ⟨_, _, .database c⟩ => inferInstanceAs (Decidable c.IsKeyed)
  | .file ⟨_, _, .other⟩ | .directory | .fault _ => .isTrue trivial

/-- What is opened is what a file holds, and no table is missing from it. -/
theorem openCatalog_eq_ok_iff {path : String} {target : Target} {c : Catalog} :
    openCatalog path target = .ok c ↔
      ∃ modified size, target = .file ⟨modified, size, .database c⟩ ∧ size ≠ 0 ∧
        c.missingTables = [] := by
  constructor
  · intro hopen
    obtain ⟨opened, hdatabase, htables⟩ := bind_eq_ok_iff.mp hopen
    have hmissing : opened.missingTables = [] ∧ opened = c := by
      split at htables <;> simp_all
    obtain ⟨hmissing, rfl⟩ := hmissing
    unfold openDatabase at hdatabase
    split at hdatabase
    · rename_i f
      obtain ⟨modified, size, content⟩ := f
      split at hdatabase
      · obtain rfl := Except.ok.inj hdatabase
        simp [Catalog.missingTables, Catalog.empty, requiredTables] at hmissing
      · rename_i hsize
        cases content with
        | other => contradiction
        | database stored =>
            obtain rfl := Except.ok.inj hdatabase
            exact ⟨modified, size, rfl, hsize, hmissing⟩
    · contradiction
  · rintro ⟨modified, size, rfl, hsize, hmissing⟩
    simp [openCatalog, openDatabase, hsize, hmissing]

namespace Catalog

theorem IsKeyed.joinedRows_ascend {c : Catalog} (hc : c.IsKeyed) :
    c.joinedRows.Pairwise (·.1.id ≤ ·.1.id) := by
  rw [joinedRows, join, List.pairwise_flatMap]
  constructor
  · intro item _
    rw [List.pairwise_map]
    exact List.pairwise_of_forall fun _ _ => le_refl item.id
  · refine hc.imp fun {a b} hlt => ?_
    intro row hrow other hother
    obtain ⟨_, -, rfl⟩ := List.mem_map.mp hrow
    obtain ⟨_, -, rfl⟩ := List.mem_map.mp hother
    exact hlt.le

theorem candidateOf_id {item : ItemRow} {kind : ItemKind} {info : Option InfoRow}
    {candidate : Candidate} (hcandidate : candidateOf item kind info = .ok candidate) :
    candidate.id = item.id := by
  obtain ⟨size, -, hmade⟩ := bind_eq_ok_iff.mp hcandidate
  obtain rfl := Except.ok.inj hmade
  rfl

/-- The candidates of rows that ascend do so strictly, behind the candidate before them. -/
theorem enumerate_ascend {exclusion : Exclusion} {minSize : Int} {last : Option Int}
    {rows : List (ItemRow × Option InfoRow)} {candidates : List Candidate}
    (hrows : rows.Pairwise (·.1.id ≤ ·.1.id)) (hlast : ∀ l ∈ last, ∀ row ∈ rows, l ≤ row.1.id)
    (henumerate : enumerate exclusion minSize last rows = .ok candidates) :
    candidates.Pairwise (·.id < ·.id) ∧ ∀ l ∈ last, ∀ c ∈ candidates, l < c.id := by
  induction rows generalizing last candidates with
  | nil =>
      obtain rfl := Except.ok.inj henumerate
      simp
  | cons row rows ih =>
      obtain ⟨item, info⟩ := row
      obtain ⟨hitem, hrest⟩ := List.pairwise_cons.mp hrows
      have hlater : ∀ l ∈ last, ∀ row ∈ rows, l ≤ row.1.id :=
        fun l hl row hrow => hlast l hl row (List.mem_cons_of_mem _ hrow)
      rw [enumerate] at henumerate
      obtain ⟨kept, -, henumerate⟩ := bind_eq_ok_iff.mp henumerate
      cases hkind : item.kind? with
      | none =>
          rw [hkind] at henumerate
          exact ih hrest hlater henumerate
      | some kind =>
          simp only [hkind] at henumerate
          split at henumerate
          · exact ih hrest hlater henumerate
          · obtain ⟨-, -, henumerate⟩ := bind_eq_ok_iff.mp henumerate
            split at henumerate
            · exact ih hrest hlater henumerate
            · rename_i hnew
              obtain ⟨candidate, hcandidate, henumerate⟩ := bind_eq_ok_iff.mp henumerate
              obtain ⟨more, hmore, henumerate⟩ := bind_eq_ok_iff.mp henumerate
              obtain rfl := Except.ok.inj henumerate
              have hid := candidateOf_id hcandidate
              have hbefore : ∀ l ∈ last, l < item.id := by
                intro l hl
                have hle := hlast l hl (item, info) List.mem_cons_self
                have hne : l ≠ item.id := by
                  rintro rfl
                  simp [Option.mem_def.mp hl] at hnew
                exact lt_of_le_of_ne hle hne
              have hafter : ∀ l ∈ some item.id, ∀ row ∈ rows, l ≤ row.1.id := by
                simpa using hitem
              obtain ⟨hascend, hbehind⟩ := ih hrest hafter hmore
              constructor
              · refine List.pairwise_cons.mpr ⟨fun c hc => ?_, hascend⟩
                rw [hid]
                exact hbehind item.id rfl c hc
              · intro l hl c hc
                rcases List.mem_cons.mp hc with rfl | hc
                · rw [hid]
                  exact hbefore l hl
                · exact (hbefore l hl).trans (hbehind item.id rfl c hc)

theorem IsKeyed.candidates_ascend {c : Catalog} (hc : c.IsKeyed) {exclusion : Exclusion}
    {minSize : Int} {found : List Candidate} (hfound : c.candidates exclusion minSize = .ok found) :
    found.Pairwise (·.id < ·.id) := by
  unfold candidates at hfound
  split at hfound
  · contradiction
  · split at hfound
    · contradiction
    · exact (enumerate_ascend hc.joinedRows_ascend (by simp) hfound).1

end Catalog

end DiskCatalog.Store
