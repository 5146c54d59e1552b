import DiskCatalog.Proofs.Pattern.Globs
import DiskCatalog.Proofs.Store.Keys
import DiskCatalog.Proofs.Store.Readability

/-!
# Plain catalogs

In a plain catalog at most one row says what is known about an item, every item has a name, no name
is empty or holds a character zero, and a size is an integer or missing.  Each item then stands in
one joined row, so of the rows that are kept none is passed over.
-/

namespace DiskCatalog.Store

open Pattern

/-- The integer that a cell holds, a missing one counting as zero. -/
def Cell.amount : Cell → Int
  | .int n => n
  | _ => 0

def Cell.IsTyped : Cell → Prop
  | .null | .int _ => True
  | .real _ | .text _ | .blob _ | .broken _ => False

instance : (cell : Cell) → Decidable cell.IsTyped
  | .null | .int _ => .isTrue trivial
  | .real _ | .text _ | .blob _ | .broken _ => .isFalse id

theorem Cell.isAtLeast_iff {cell : Cell} (hcell : cell.IsTyped) (bound : Int) :
    cell.isAtLeast bound ↔ bound ≤ cell.amount := by
  cases cell with
  | null => simp [isAtLeast, amount]
  | int n => simp [isAtLeast, amount]
  | real _ | text _ | blob _ | broken _ => exact hcell.elim

theorem TextCell.read_eq_shown {content : TextCell} (htext : content.isText) :
    content.read = content.shown := by
  cases content with
  | text s => rfl
  | blob _ | broken _ => contradiction

namespace Catalog

structure IsPlain (c : Catalog) : Prop where
  keyed : c.IsKeyed
  single : ∀ item ∈ c.items, (c.infos.filter fun info => info.item.isInt item.id).length ≤ 1
  named : ∀ item ∈ c.items, item.name ≠ none
  itemNames : ∀ item ∈ c.items, ∀ name ∈ item.name, ZeroFree name.read
  infoNames : ∀ info ∈ c.infos, ∀ name ∈ info.name, ¬ name.isEmpty ∧ ZeroFree name.read
  sizes : ∀ info ∈ c.infos, info.size.IsTyped

/-- What is known about an item: the first row about it that the enumeration meets. -/
def infoOf (c : Catalog) (id : Int) : Option InfoRow :=
  c.infos.find? fun info => info.item.isInt id

/-- The size that is known of an item; one that is not known counts as zero. -/
def sizeOf (c : Catalog) (id : Int) : Int :=
  ((c.infoOf id).elim Cell.null (·.size)).amount

/-- An item is stored as a file. -/
def IsFile (c : Catalog) (id : Int) : Prop :=
  ∃ item ∈ c.items, item.id = id ∧ item.kind? = some .file

instance (c : Catalog) (id : Int) : Decidable (c.IsFile id) :=
  inferInstanceAs (Decidable (∃ item ∈ c.items, item.id = id ∧ item.kind? = some .file))

theorem IsKeyed.eq_of_id_eq {c : Catalog} (hc : c.IsKeyed) {item other : ItemRow}
    (hitem : item ∈ c.items) (hother : other ∈ c.items) (hid : item.id = other.id) :
    item = other := by
  have hnodup : (c.items.map (·.id)).Nodup := List.pairwise_map.mpr (hc.imp fun hlt => hlt.ne)
  exact List.inj_on_of_nodup_map hnodup hitem hother hid

theorem IsKeyed.isFile_iff {c : Catalog} (hc : c.IsKeyed) {item : ItemRow} (hitem : item ∈ c.items) :
    c.IsFile item.id ↔ item.kind? = some .file := by
  constructor
  · rintro ⟨other, hother, hid, hfile⟩
    obtain rfl := hc.eq_of_id_eq hother hitem hid
    exact hfile
  · intro hfile
    exact ⟨item, hitem, rfl, hfile⟩

/-- A kept row as it becomes a candidate. -/
def readRow (row : ItemRow × Option InfoRow) : Except Failure Candidate := do
  fetch (fetchedForCandidate row.1 row.2)
  candidateOfRow row

/-- Without an item that is passed over, the rows that are kept are read one after the other. -/
theorem enumerate_eq_mapM {exclusion : Exclusion}
    (hshort : exclusion.filenameCondition.HasShortPatterns) (minSize : Int) {last : Option Int}
    {rows : List (ItemRow × Option InfoRow)} (hrows : rows.Pairwise (·.1.id < ·.1.id))
    (hlast : ∀ l ∈ last, ∀ row ∈ rows, l < row.1.id) :
    enumerate exclusion minSize last rows =
      (rows.filter (isKept exclusion minSize)).mapM readRow := by
  induction rows generalizing last with
  | nil => rfl
  | cons row rows ih =>
      obtain ⟨item, info⟩ := row
      rw [List.pairwise_cons] at hrows
      have hkeeps := keeps_eq hshort minSize (item, info)
      rw [List.filter_cons]
      by_cases hkept : isKept exclusion minSize (item, info)
      · obtain ⟨kind, hkind⟩ := isKept_kind? hkept
        have hnew : last ≠ some item.id := by
          intro heq
          exact (hlast item.id heq (item, info) List.mem_cons_self).false
        have hrest := @ih (some item.id) hrows.2 (by simpa using hrows.1)
        rw [if_pos hkept, enumerate_of_kept hkind (hkept ▸ hkeeps), List.mapM_cons, hrest, readRow,
          candidateOfRow, hkind, if_neg hnew, bind_assoc]
        rfl
      · rw [Bool.not_eq_true] at hkept
        rw [if_neg (by simp [hkept]), enumerate_of_not_kept (hkept ▸ hkeeps)]
        exact ih hrows.2 fun l hl other hother => hlast l hl other (List.mem_cons_of_mem _ hother)

/-! ## Rows about an item -/

theorem head?_rowsAbout (infos : List InfoRow) (item : ItemRow) :
    (rowsAbout infos item).head? = some (infos.find? fun info => info.item.isInt item.id) := by
  rw [← List.head?_filter, rowsAbout]
  cases infos.filter fun info => info.item.isInt item.id with
  | nil => rfl
  | cons info infos => rfl

theorem rowsAbout_of_single {infos : List InfoRow} {item : ItemRow}
    (hsingle : (infos.filter fun info => info.item.isInt item.id).length ≤ 1) :
    rowsAbout infos item = [infos.find? fun info => info.item.isInt item.id] := by
  have hlength : (rowsAbout infos item).length ≤ 1 := by
    unfold rowsAbout
    split
    · exact le_refl 1
    · rwa [List.length_map]
  obtain ⟨more, hmore⟩ := List.head?_eq_some_iff.mp (head?_rowsAbout infos item)
  rw [hmore, List.length_cons] at hlength
  have hnil : more = [] := List.length_eq_zero_iff.mp (by omega)
  rw [hmore, hnil]

theorem join_of_single {items : List ItemRow} {infos : List InfoRow}
    {infoOf : Int → Option InfoRow}
    (hrows : ∀ item ∈ items, rowsAbout infos item = [infoOf item.id]) :
    join items infos = items.map fun item => (item, infoOf item.id) := by
  have hrow : ∀ item ∈ items,
      (rowsAbout infos item).map (item, ·) = [(item, infoOf item.id)] := by
    intro item hitem
    rw [hrows item hitem, List.map_singleton]
  rw [join, List.flatMap_congr hrow, ← List.map_eq_flatMap]

/-- A row is met by the enumeration if it is met by the reading of the names. -/
theorem mem_namedRows_iff {c : Catalog} {row : ItemRow × Option InfoRow} :
    row ∈ c.namedRows ↔ row ∈ c.joinedRows := by
  have hrows : ∀ item : ItemRow, (rowsAbout c.namings item).Perm (rowsAbout c.infos item) := by
    intro item
    have hfilter := c.sameRows.filter fun info => info.item.isInt item.id
    unfold rowsAbout
    cases hinfos : c.infos.filter fun info => info.item.isInt item.id with
    | nil =>
        rw [hinfos] at hfilter
        rw [List.perm_nil.mp hfilter]
    | cons info infos =>
        cases hnamings : c.namings.filter fun info => info.item.isInt item.id with
        | nil =>
            rw [hinfos, hnamings] at hfilter
            exact absurd hfilter.symm (List.cons_ne_nil _ _ <| List.perm_nil.mp ·)
        | cons naming namings =>
            rw [hinfos, hnamings] at hfilter
            exact hfilter.map some
  simp only [namedRows, joinedRows, join, List.mem_flatMap, List.mem_map, (hrows _).mem_iff]

/-! ## Names that are read -/

/-- A name that a row adds is the name of the row, and its type is that of the item. -/
theorem getElem?_addName {names next : ItemNames} {row : ItemRow × Option InfoRow}
    (hadd : addName names row = .ok next) {id : Int} {named : NamedItem}
    (hnamed : next[id]? = some named) :
    names[id]? = some named ∨ (row.1.id = id ∧
      named.name = (filled (rowName row.1 row.2)).getD "" ∧
      wanted row.1.itype = .ok named.type) := by
  obtain ⟨-, -, hadd⟩ := bind_eq_ok_iff.mp hadd
  obtain ⟨type, htype, hinserted⟩ := bind_eq_ok_iff.mp hadd
  obtain rfl := Except.ok.inj hinserted
  rw [Std.TreeMap.getElem?_insertIfNew] at hnamed
  split at hnamed
  · rename_i hnew
    obtain rfl := Option.some.inj hnamed
    exact Or.inr ⟨Std.LawfulEqCmp.compare_eq_iff_eq.mp hnew.1, rfl, htype⟩
  · exact Or.inl hnamed

/-- A name that is read is the name of a joined row of its item, with the type of the item. -/
theorem exists_row_of_itemNames {c : Catalog} {names : ItemNames} (hnames : c.itemNames = .ok names)
    {id : Int} {named : NamedItem} (hnamed : names[id]? = some named) :
    ∃ row ∈ c.joinedRows, row.1.id = id ∧ named.name = (filled (rowName row.1 row.2)).getD "" ∧
      wanted row.1.itype = .ok named.type := by
  have hfirst : (∅ : ItemNames)[id]? ≠ some named := by simp
  have hread := exists_of_foldlM (p := fun names : ItemNames => names[id]? = some named) hnames
    (fun _ _ _ hadd hafter => getElem?_addName hadd hafter) hnamed
  obtain ⟨row, hrow, hread⟩ := hread.resolve_left hfirst
  exact ⟨row, mem_namedRows_iff.mp hrow, hread⟩

namespace IsPlain

variable {c : Catalog} (hc : c.IsPlain)

include hc

theorem joinedRows_eq : c.joinedRows = c.items.map fun item => (item, c.infoOf item.id) :=
  join_of_single fun item hitem => rowsAbout_of_single (hc.single item hitem)

theorem joinedRows_ascend : c.joinedRows.Pairwise (·.1.id < ·.1.id) := by
  rw [hc.joinedRows_eq, List.pairwise_map]
  exact hc.keyed

theorem isTyped_size (id : Int) : (rowSize (c.infoOf id)).IsTyped := by
  cases hinfo : c.infoOf id with
  | none => trivial
  | some info => exact hc.sizes info (List.mem_of_find?_eq_some hinfo)

/-- The name of a row is neither missing nor empty, and the one that is shown for it. -/
theorem exists_rowName {item : ItemRow} (hitem : item ∈ c.items) :
    ∃ name, rowName item (c.infoOf item.id) = some name ∧ ZeroFree name.read ∧
      (filled ((c.infoOf item.id).bind (·.name))).getD (item.name.getD "") = name := by
  obtain ⟨own, hown⟩ := Option.ne_none_iff_exists'.mp (hc.named item hitem)
  cases hinfo : (c.infoOf item.id).bind (·.name) with
  | none =>
      refine ⟨own, ?_, hc.itemNames item hitem own hown, ?_⟩
      · rw [rowName, hinfo, Option.none_or, hown]
      · rw [hown]
        rfl
  | some name =>
      obtain ⟨info, hmem, hname⟩ := Option.bind_eq_some_iff.mp hinfo
      obtain ⟨hfilled, hzero⟩ := hc.infoNames info (List.mem_of_find?_eq_some hmem) name hname
      refine ⟨name, ?_, hzero, ?_⟩
      · rw [rowName, hinfo, Option.some_or]
      · simp [filled, Option.filter, hfilled]

/-- Every name that is read is free of the character zero. -/
theorem zeroFree_itemNames {names : ItemNames} (hnames : c.itemNames = .ok names) {id : Int}
    {named : NamedItem} (hnamed : names[id]? = some named) : ZeroFree named.name.read := by
  obtain ⟨row, hrow, -, hname, -⟩ := exists_row_of_itemNames hnames hnamed
  rw [hc.joinedRows_eq] at hrow
  obtain ⟨item, hitem, rfl⟩ := List.mem_map.mp hrow
  obtain ⟨name, hrowName, hzero, -⟩ := hc.exists_rowName hitem
  rw [hname, hrowName]
  by_cases hempty : name.isEmpty
  · have hnone : filled (some name) = none := by simp [filled, Option.filter, hempty]
    rw [hnone]
    decide
  · have hsome : filled (some name) = some name := by simp [filled, Option.filter, hempty]
    rwa [hsome]

end IsPlain

end Catalog

end DiskCatalog.Store
