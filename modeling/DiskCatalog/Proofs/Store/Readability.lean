import DiskCatalog.Proofs.Fallible
import DiskCatalog.Proofs.Pattern.Limits
import DiskCatalog.Store.Reading

/-!
# When a catalog can be read

The four readings of a catalog ask for columns without broken texts and for cells that hold
integers.  `Catalog.demands` lists what they ask for, in the order in which they ask.  Within the
limits of the query engine the readings succeed if all of it is there.  A broken text is a fault of
the query and a cell without an integer a value that cannot be converted: which of the two a reading
fails by depends on what it meets first.
-/

namespace DiskCatalog

/-- A failure of converting a value: of a wrong text, of a wrong kind of value, or of a number that
is too large. -/
def Failure.IsConversion (f : Failure) : Prop :=
  f.kind = .value ∨ f.kind = .type ∨ f.kind = .overflow

def Failure.IsQueryFault (f : Failure) : Prop :=
  ∃ fault, f = .query fault

theorem Failure.isConversion_number (fault : NumberFault) : (Failure.number fault).IsConversion := by
  cases fault <;> simp [IsConversion, kind, NumberFault.kind]

theorem Failure.IsConversion.not_isQueryFault {f : Failure} (hf : f.IsConversion) :
    ¬ f.IsQueryFault := by
  rintro ⟨fault, rfl⟩
  simp [IsConversion, kind] at hf

namespace Store

open Pattern

/-! ## Cells -/

def Cell.IsReadable (cell : Cell) : Prop :=
  Succeeds cell.toInteger

/-- Neither nothing nor an integer is a broken text. -/
theorem Cell.broken?_eq_none {cell : Cell} (hcell : cell = .null ∨ cell.IsReadable) :
    cell.broken? = none := by
  cases cell with
  | broken bytes => simp [IsReadable, toInteger] at hcell
  | null | int _ | real _ | text _ | blob _ => rfl

/-! ## Demands -/

/-- A thing that a reading asks for. -/
inductive Demand where
  /-- No text is broken in the columns of a row. -/
  | whole (columns : Columns)
  /-- A cell holds an integer. -/
  | integer (cell : Cell)

namespace Demand

def IsMet : Demand → Prop
  | .whole columns => ∀ column ∈ columns, column.2 = none
  | .integer cell => cell.IsReadable

/-- An integer is asked for where a cell holds anything. -/
def integerIn (cell : Cell) : List Demand :=
  if cell = .null then [] else [.integer cell]

theorem integerIn_met_iff {cell : Cell} :
    (∀ d ∈ integerIn cell, d.IsMet) ↔ cell = .null ∨ cell.IsReadable := by
  unfold integerIn
  split
  · simp [*]
  · simp [*, IsMet]

/-- Whatever integer is asked for is there, up to the first broken text. -/
def AreConvertible : List Demand → Prop
  | [] => True
  | .whole columns :: demands => (whole columns).IsMet → AreConvertible demands
  | .integer cell :: demands => cell.IsReadable ∧ AreConvertible demands

theorem areConvertible_append (demands more : List Demand) :
    AreConvertible (demands ++ more) ↔
      AreConvertible demands ∧ ((∀ d ∈ demands, d.IsMet) → AreConvertible more) := by
  induction demands with
  | nil => simp [AreConvertible]
  | cons d demands ih =>
      rw [List.cons_append]
      cases d with
      | whole columns =>
          simp only [AreConvertible, ih, List.forall_mem_cons]
          tauto
      | integer cell =>
          simp only [AreConvertible, ih, List.forall_mem_cons, IsMet]
          tauto

end Demand

/-- A reading asks for some things: it succeeds if all of them are there, and it fails by the query
if an integer is missing nowhere before a broken text. -/
structure Reads {α : Type} (demands : List Demand) (x : Except Failure α) : Prop where
  succeeds : Succeeds x ↔ ∀ d ∈ demands, d.IsMet
  query : FailsOnlyBy Failure.IsQueryFault x ↔ Demand.AreConvertible demands
  fails : FailsOnlyBy (fun f => f.IsQueryFault ∨ f.IsConversion) x

namespace Reads

variable {α β : Type} {demands more : List Demand}

theorem ok (a : α) : Reads [] (.ok a) := by
  constructor <;> simp [Demand.AreConvertible]

theorem bind {x : Except Failure α} {f : α → Except Failure β} (hx : Reads demands x)
    (hf : ∀ a, Reads more (f a)) : Reads (demands ++ more) (x >>= f) := by
  constructor
  case succeeds =>
    simp only [succeeds_bind_iff, (hf _).succeeds, exists_and_right, List.forall_mem_append]
    exact and_congr_left fun _ => hx.succeeds
  case query =>
    rw [failsOnlyBy_bind, Demand.areConvertible_append, hx.query]
    refine and_congr_right fun _ => ?_
    simp only [(hf _).query, ← hx.succeeds, Succeeds, forall_exists_index]
  case fails => exact hx.fails.bind fun a _ => (hf a).fails

/-- What a list of rows is read for is what each of them is read for. -/
theorem foldlM {σ : Type} {step : σ → α → Except Failure σ} {asks : α → List Demand}
    (hstep : ∀ s a, Reads (asks a) (step s a)) (s : σ) (rows : List α) :
    Reads (rows.flatMap asks) (rows.foldlM step s) := by
  induction rows generalizing s with
  | nil => exact .ok s
  | cons a rows ih =>
      rw [List.foldlM_cons, List.flatMap_cons]
      exact (hstep s a).bind ih

theorem fetch (columns : Columns) : Reads [.whole columns] (Store.fetch columns) := by
  have hsucceeds : Succeeds (Store.fetch columns) ↔ ∀ column ∈ columns, column.2 = none := by
    induction columns with
    | nil => simp [Store.fetch]
    | cons column columns ih =>
        obtain ⟨name, _ | bytes⟩ := column
        · rw [List.forall_mem_cons, ← ih, Store.fetch]
          exact (and_iff_right rfl).symm
        · simp only [Store.fetch, not_succeeds_error, List.forall_mem_cons, reduceCtorEq, false_and]
  have hfails : FailsOnlyBy Failure.IsQueryFault (Store.fetch columns) := by
    clear hsucceeds
    induction columns with
    | nil => exact failsOnlyBy_ok _ ()
    | cons column columns ih =>
        obtain ⟨name, _ | bytes⟩ := column
        · exact ih
        · exact failsOnlyBy_error.mpr ⟨_, rfl⟩
  constructor
  case succeeds => simpa [Demand.IsMet] using hsucceeds
  case query => simpa [Demand.AreConvertible] using hfails
  case fails => exact hfails.imp fun _ => Or.inl

theorem wanted (cell : Cell) : Reads [.integer cell] (Store.wanted cell) := by
  have hfails : FailsOnlyBy Failure.IsConversion (Store.wanted cell) :=
    failsOnlyBy_mapError_iff.mpr fun fault _ => Failure.isConversion_number fault
  have hsucceeds : Succeeds (Store.wanted cell) ↔ cell.IsReadable := by
    simp [Store.wanted, Cell.IsReadable]
  constructor
  case succeeds => simpa [Demand.IsMet] using hsucceeds
  case query =>
    simp only [Demand.AreConvertible, and_true, ← hsucceeds]
    cases hwanted : Store.wanted cell with
    | ok n => simp
    | error f => simpa using (failsOnlyBy_error.mp (hwanted ▸ hfails)).not_isQueryFault
  case fails => exact hfails.imp fun _ => Or.inr

theorem map {x : Except Failure α} {f : α → β} (hx : Reads demands x) : Reads demands (x.map f) := by
  have hmap : x.map f = x >>= fun a => .ok (f a) := by cases x <;> rfl
  rw [hmap, ← List.append_nil demands]
  exact hx.bind fun a => .ok (f a)

theorem wanted? (cell : Cell) : Reads (Demand.integerIn cell) (Store.wanted? cell) := by
  cases cell with
  | null => exact .ok none
  | int _ | real _ | text _ | blob _ | broken _ => exact (Reads.wanted _).map (f := some)

end Reads

namespace Catalog

/-! ## The candidates -/

def isKept (exclusion : Exclusion) (minSize : Int) (row : ItemRow × Option InfoRow) : Bool :=
  match row.1.kind? with
  | none => false
  | some kind =>
    exclusion.filenameCondition.holds ((rowName row.1 row.2).map (·.read)) &&
      (minSize ≤ 0 || (kind != .file || (rowSize row.2).isAtLeast minSize))

/-- The joined rows that become candidates: of each item the first that is kept.  `last` is the
item of the one before. -/
def chosen (exclusion : Exclusion) (minSize : Int) (last : Option Int) :
    List (ItemRow × Option InfoRow) → List (ItemRow × Option InfoRow)
  | [] => []
  | row :: rows =>
    if isKept exclusion minSize row && last != some row.1.id then
      row :: chosen exclusion minSize (some row.1.id) rows
    else chosen exclusion minSize last rows

def candidateOfRow (row : ItemRow × Option InfoRow) : Except Failure Candidate :=
  candidateOf row.1 (row.1.kind?.getD .file) row.2

/-- Every row that is kept is fetched, and of the first of an item the size is wanted. -/
def candidateDemands (exclusion : Exclusion) (minSize : Int) (last : Option Int) :
    List (ItemRow × Option InfoRow) → List Demand
  | [] => []
  | row :: rows =>
    if isKept exclusion minSize row then
      .whole (fetchedForCandidate row.1 row.2) ::
        ((if last = some row.1.id then [] else Demand.integerIn (rowSize row.2)) ++
          candidateDemands exclusion minSize (some row.1.id) rows)
    else candidateDemands exclusion minSize last rows

/-- The enumeration of the items keeps to the limits of the query engine. -/
structure EnumerationWithinLimits (exclusion : Exclusion) (minSize : Int) : Prop where
  patterns : exclusion.filenameCondition.HasShortPatterns
  depth : conditionDepth exclusion minSize ≤ Pattern.maxDepth
  minSize : isStorable minSize

theorem keeps_eq {exclusion : Exclusion} (hshort : exclusion.filenameCondition.HasShortPatterns)
    (minSize : Int) (row : ItemRow × Option InfoRow) :
    keeps exclusion minSize row.1 row.2 = .ok (isKept exclusion minSize row) := by
  cases hkind : row.1.kind? with
  | none => simp [keeps, isKept, hkind]
  | some kind =>
      by_cases hempty : exclusion.filenames.isEmpty
      · have hholds : exclusion.filenameCondition.holds
            ((rowName row.1 row.2).map (·.read)) = true := by
          simp [Exclusion.filenameCondition, List.isEmpty_iff.mp hempty, Condition.holds]
        simp [keeps, isKept, hkind, hempty, hholds]
      · simp [keeps, isKept, hkind, hempty, Condition.check_eq hshort]

theorem isKept_kind? {exclusion : Exclusion} {minSize : Int} {row : ItemRow × Option InfoRow}
    (hkept : isKept exclusion minSize row) : ∃ kind, row.1.kind? = some kind := by
  cases hkind : row.1.kind? with
  | none => simp [isKept, hkind] at hkept
  | some kind => exact ⟨kind, rfl⟩

/-- A row that is not kept is passed over. -/
theorem enumerate_of_not_kept {exclusion : Exclusion} {minSize : Int} {last : Option Int}
    {item : ItemRow} {info : Option InfoRow} {rows : List (ItemRow × Option InfoRow)}
    (hkeeps : keeps exclusion minSize item info = .ok false) :
    enumerate exclusion minSize last ((item, info) :: rows) =
      enumerate exclusion minSize last rows := by
  rw [enumerate, hkeeps]
  cases item.kind? <;> rfl

/-- A row that is kept is fetched, and it becomes a candidate unless its item has one. -/
theorem enumerate_of_kept {exclusion : Exclusion} {minSize : Int} {last : Option Int}
    {item : ItemRow} {info : Option InfoRow} {rows : List (ItemRow × Option InfoRow)}
    {kind : ItemKind} (hkind : item.kind? = some kind)
    (hkeeps : keeps exclusion minSize item info = .ok true) :
    enumerate exclusion minSize last ((item, info) :: rows) =
      (fetch (fetchedForCandidate item info) >>= fun _ =>
        if last = some item.id then enumerate exclusion minSize last rows
        else
          candidateOf item kind info >>= fun candidate =>
            enumerate exclusion minSize (some item.id) rows >>= fun rest =>
              .ok (candidate :: rest)) := by
  rw [enumerate, hkeeps]
  simp [hkind, Except.mapError]

def linkDemands (row : LinkRow) : List Demand :=
  .whole (fetchedForLink row) ::
    if row.item = .null then [] else .integer row.item :: Demand.integerIn row.parent

theorem addLink_reads (links : ParentLinks) (row : LinkRow) :
    Reads (linkDemands row) (addLink links row) := by
  rw [linkDemands, addLink]
  by_cases hnull : row.item = .null
  · rw [if_pos hnull, if_pos hnull]
    exact (Reads.fetch _).bind fun _ => .ok links
  · rw [if_neg hnull, if_neg hnull, ← List.append_nil (Demand.integerIn _)]
    exact (Reads.fetch _).bind fun _ => (Reads.wanted _).bind fun _ =>
      (Reads.wanted? _).bind fun _ => .ok _

def nameDemands (row : ItemRow × Option InfoRow) : List Demand :=
  [.whole (fetchedForName row), .integer row.1.itype]

def volumeDemands (row : VolumeRow) : List Demand :=
  [.whole (fetchedForVolume row), .integer row.item]

theorem parentLinks_reads (c : Catalog) : Reads (c.links.flatMap linkDemands) c.parentLinks :=
  .foldlM addLink_reads ∅ c.links

/-- What the four readings ask for, in the order in which they ask. -/
def demands (c : Catalog) (exclusion : Exclusion) (minSize : Int) : List Demand :=
  candidateDemands exclusion minSize none c.joinedRows ++ (c.links.flatMap linkDemands ++
    (c.namedRows.flatMap nameDemands ++ c.volumes.flatMap volumeDemands))

end Catalog

/-- A catalog with one file, of which a cell holds the size, changed last at some time. -/
def oneFile (modified : Int) (size : Cell) : Target :=
  .file ⟨modified, 1, .database (.ofRows [⟨1, .int 1, some "a"⟩]
    [⟨.int 1, none, none, none, size⟩] [] [])⟩

end Store

end DiskCatalog
