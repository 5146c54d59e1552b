import DiskCatalog.Proofs.Store.Plain

/-!
# The row by which an item is told

An item may be joined with several rows.  Each of them is kept or not for itself, and the first that
is kept becomes the candidate, whatever the rows before it say.  The name by which an item stands in
paths is that of the first row that the reading of the names meets, kept or not.
-/

namespace DiskCatalog.Store.Catalog

open Pattern

variable {exclusion : Exclusion} {minSize : Int}

/-! ## Rows that are kept -/

theorem isKept_of_keeps {row : ItemRow × Option InfoRow} {kept : Bool}
    (hkeeps : keeps exclusion minSize row.1 row.2 = .ok kept) :
    isKept exclusion minSize row = kept := by
  cases hkind : row.1.kind? with
  | none =>
      simp only [keeps, hkind, Except.ok.injEq] at hkeeps
      simp [isKept, hkind, hkeeps]
  | some kind =>
      by_cases hempty : exclusion.filenames.isEmpty
      · have hholds : exclusion.filenameCondition.holds
            ((rowName row.1 row.2).map (·.read)) = true := by
          simp [Exclusion.filenameCondition, List.isEmpty_iff.mp hempty, Condition.holds]
        simpa [keeps, isKept, hkind, hempty, hholds] using hkeeps
      · simp only [keeps, hkind, if_neg hempty] at hkeeps
        obtain ⟨named, hnamed, hkeeps⟩ := bind_eq_ok_iff.mp hkeeps
        simpa [isKept, hkind, Condition.check_eq_ok hnamed] using hkeeps

/-- An enumeration that ends has converted the chosen rows one after the other. -/
theorem mapM_chosen_of_enumerate {last : Option Int} {rows : List (ItemRow × Option InfoRow)}
    {found : List Candidate} (henumerate : enumerate exclusion minSize last rows = .ok found) :
    (chosen exclusion minSize last rows).mapM candidateOfRow = .ok found := by
  induction rows generalizing last found with
  | nil => exact henumerate
  | cons row rows ih =>
      obtain ⟨item, info⟩ := row
      obtain ⟨kept, hkeeps⟩ : ∃ kept, keeps exclusion minSize item info = .ok kept := by
        obtain ⟨kept, hkeeps, -⟩ := bind_eq_ok_iff.mp henumerate
        exact ⟨kept, mapError_eq_ok_iff.mp hkeeps⟩
      have hkept : isKept exclusion minSize (item, info) = kept :=
        @isKept_of_keeps _ _ (item, info) _ hkeeps
      cases kept with
      | false =>
          rw [chosen, hkept, Bool.false_and, if_neg Bool.false_ne_true]
          exact ih (enumerate_of_not_kept hkeeps ▸ henumerate)
      | true =>
          obtain ⟨kind, hkind⟩ := isKept_kind? hkept
          rw [enumerate_of_kept hkind hkeeps] at henumerate
          obtain ⟨-, -, henumerate⟩ := bind_eq_ok_iff.mp henumerate
          rw [chosen, hkept, Bool.true_and]
          split at henumerate
          · rename_i hsame
            rw [if_neg (by simpa using hsame)]
            exact ih henumerate
          · rename_i hnew
            obtain ⟨candidate, hcandidate, henumerate⟩ := bind_eq_ok_iff.mp henumerate
            obtain ⟨rest, hrest, henumerate⟩ := bind_eq_ok_iff.mp henumerate
            have hfirst : candidateOfRow (item, info) = .ok candidate := by
              rw [candidateOfRow, hkind]
              exact hcandidate
            rw [if_pos (by simpa using hnew), List.mapM_cons, hfirst, ok_bind, ih hrest, ok_bind]
            exact henumerate

theorem mapM_chosen_of_candidates {c : Catalog} {found : List Candidate}
    (hfound : c.candidates exclusion minSize = .ok found) :
    (chosen exclusion minSize none c.joinedRows).mapM candidateOfRow = .ok found := by
  unfold candidates at hfound
  split at hfound
  · contradiction
  · split at hfound
    · contradiction
    · exact mapM_chosen_of_enumerate hfound

/-! ## The first row that is kept -/

def firstKept (c : Catalog) (exclusion : Exclusion) (minSize : Int) (item : ItemRow) :
    Option (Option InfoRow) :=
  (rowsAbout c.infos item).find? fun info => isKept exclusion minSize (item, info)

/-- Behind a row of an item that was chosen, its other rows are passed over. -/
theorem chosen_same_item (item : ItemRow) (infos : List (Option InfoRow))
    (rows : List (ItemRow × Option InfoRow)) :
    chosen exclusion minSize (some item.id) (infos.map (item, ·) ++ rows) =
      chosen exclusion minSize (some item.id) rows := by
  induction infos with
  | nil => rfl
  | cons info infos ih =>
      rw [List.map_cons, List.cons_append, chosen, bne_self_eq_false, Bool.and_false,
        if_neg Bool.false_ne_true, ih]

theorem chosen_new_item {item : ItemRow} {last : Option Int} (hlast : last ≠ some item.id)
    (infos : List (Option InfoRow)) (rows : List (ItemRow × Option InfoRow)) :
    chosen exclusion minSize last (infos.map (item, ·) ++ rows) =
      match infos.find? fun info => isKept exclusion minSize (item, info) with
      | none => chosen exclusion minSize last rows
      | some info => (item, info) :: chosen exclusion minSize (some item.id) rows := by
  have hnew : (last != some item.id) = true := bne_iff_ne.mpr hlast
  induction infos with
  | nil => rfl
  | cons info infos ih =>
      rw [List.map_cons, List.cons_append, chosen, hnew, Bool.and_true, List.find?_cons]
      cases isKept exclusion minSize (item, info) with
      | true => rw [if_pos rfl, chosen_same_item]
      | false => rw [if_neg Bool.false_ne_true, ih]

theorem chosen_join (c : Catalog) {items : List ItemRow} (hitems : items.Pairwise (·.id < ·.id))
    {last : Option Int} (hlast : ∀ l ∈ last, ∀ item ∈ items, l < item.id) :
    chosen exclusion minSize last (join items c.infos) =
      items.filterMap fun item => (c.firstKept exclusion minSize item).map (item, ·) := by
  induction items generalizing last with
  | nil => rfl
  | cons item items ih =>
      obtain ⟨hfirst, hrest⟩ := List.pairwise_cons.mp hitems
      have hnew : last ≠ some item.id := by
        intro heq
        exact (hlast item.id heq item List.mem_cons_self).false
      rw [join, List.flatMap_cons, chosen_new_item hnew, List.filterMap_cons, firstKept]
      cases (rowsAbout c.infos item).find? fun info => isKept exclusion minSize (item, info) with
      | none =>
          simp only [Option.map_none]
          exact ih hrest fun l hl other hother =>
            hlast l hl other (List.mem_cons_of_mem item hother)
      | some info =>
          simp only [Option.map_some, List.cons.injEq, true_and]
          exact ih hrest (by simpa using hfirst)

/-- Of each item of a keyed catalog the first row that is kept is chosen. -/
theorem IsKeyed.chosen_eq {c : Catalog} (hc : c.IsKeyed) :
    chosen exclusion minSize none c.joinedRows =
      c.items.filterMap fun item => (c.firstKept exclusion minSize item).map (item, ·) :=
  chosen_join c hc (by simp)

theorem IsKeyed.mem_chosen_iff {c : Catalog} (hc : c.IsKeyed) {row : ItemRow × Option InfoRow} :
    row ∈ chosen exclusion minSize none c.joinedRows ↔
      row.1 ∈ c.items ∧ c.firstKept exclusion minSize row.1 = some row.2 := by
  rw [hc.chosen_eq, List.mem_filterMap]
  constructor
  · rintro ⟨item, hitem, hrow⟩
    obtain ⟨info, hinfo, rfl⟩ := Option.map_eq_some_iff.mp hrow
    exact ⟨hitem, hinfo⟩
  · rintro ⟨hitem, hinfo⟩
    exact ⟨row.1, hitem, by rw [hinfo, Option.map_some]⟩

theorem isKept_of_firstKept {c : Catalog} {item : ItemRow} {info : Option InfoRow}
    (hinfo : c.firstKept exclusion minSize item = some info) :
    isKept exclusion minSize (item, info) :=
  (List.find?_eq_some_iff_append.mp hinfo).1

/-! ## The first row and the only one -/

/-- The row by which an item is named in paths: the first about it that the reading of the names
meets. -/
def namingOf (c : Catalog) (id : Int) : Option InfoRow :=
  c.namings.find? fun info => info.item.isInt id

theorem firstKept_of_single {c : Catalog} {item : ItemRow}
    (hsingle : (c.infos.filter fun info => info.item.isInt item.id).length ≤ 1) :
    c.firstKept exclusion minSize item =
      if isKept exclusion minSize (item, c.infoOf item.id) then some (c.infoOf item.id)
      else none := by
  rw [firstKept, rowsAbout_of_single hsingle, List.find?_singleton, infoOf]

/-- At most one row tells of an item, and no text holds a character zero. -/
structure IsSingle (c : Catalog) : Prop where
  keyed : c.IsKeyed
  single : ∀ item ∈ c.items, (c.infos.filter fun info => info.item.isInt item.id).length ≤ 1
  itemNames : ∀ item ∈ c.items, ∀ name ∈ item.name, ZeroFree name.read
  infoNames : ∀ info ∈ c.infos, ∀ name ∈ info.name, ZeroFree name.read

/-! ## Names of rows -/

/-- The name that is shown for a row: that of the file where it is not empty, else that of the
item. -/
def shownName (item : ItemRow) (info : Option InfoRow) : TextCell :=
  (filled (info.bind (·.name))).getD (item.name.getD "")

/-- The name of a row as it stands in paths, where only a missing name of the file gives way to that
of the item. -/
def pathName (item : ItemRow) (info : Option InfoRow) : TextCell :=
  (filled (rowName item info)).getD ""

/-- No empty name of the file hides a name of the item, and no empty bytes are its name. -/
structure NamesAgree (item : ItemRow) (info : Option InfoRow) : Prop where
  file : ∀ name ∈ info.bind (·.name), name.isEmpty → item.name.getD "" = ""
  own : info.bind (·.name) = none → ∀ name ∈ item.name, name.isEmpty → name = ""

theorem filled_of_isEmpty {name : TextCell} (hname : name.isEmpty) : filled (some name) = none := by
  simp [filled, Option.filter, hname]

theorem filled_of_not_isEmpty {name : TextCell} (hname : ¬ name.isEmpty) :
    filled (some name) = some name := by
  simp [filled, Option.filter, hname]

/-- A row without any name, a row of which the name of the file is empty, and any other row. -/
theorem rowName_cases (item : ItemRow) (info : Option InfoRow) :
    (info.bind (·.name) = none ∧ rowName item info = none ∧ shownName item info = "") ∨
    (∃ name ∈ info.bind (·.name), name.isEmpty ∧ rowName item info = some name ∧
      shownName item info = item.name.getD "") ∨
    ((∀ name ∈ info.bind (·.name), ¬ name.isEmpty) ∧
      rowName item info = some (shownName item info)) := by
  unfold rowName shownName
  cases info.bind (·.name) with
  | none => cases item.name <;> simp [filled]
  | some name =>
      by_cases hempty : name.isEmpty
      · simp [hempty, filled_of_isEmpty hempty]
      · simp [hempty, filled_of_not_isEmpty hempty]

theorem shownName_eq_pathName {item : ItemRow} {info : Option InfoRow}
    (hagree : NamesAgree item info) : shownName item info = pathName item info := by
  unfold pathName
  obtain ⟨-, hrow, hshown⟩ | ⟨name, hfile, hempty, hrow, hshown⟩ | ⟨hfile, hrow⟩ :=
    rowName_cases item info
  · rw [hrow, hshown]
    rfl
  · rw [hrow, hshown, filled_of_isEmpty hempty, hagree.file name hfile hempty]
    rfl
  · rw [hrow]
    by_cases hempty : (shownName item info).isEmpty
    · -- only a name of the item can be empty here
      have hnone : info.bind (·.name) = none := by
        by_contra hsome
        obtain ⟨name, hname⟩ := Option.ne_none_iff_exists'.mp hsome
        rw [shownName, hname, filled_of_not_isEmpty (hfile name hname)] at hempty
        exact hfile name hname hempty
      have hown : item.name = some (shownName item info) := by
        rwa [rowName, hnone, Option.none_or] at hrow
      rw [filled_of_isEmpty hempty, hagree.own hnone _ hown hempty]
      rfl
    · rw [filled_of_not_isEmpty hempty, Option.getD_some]

theorem candidateOfRow_facts {row : ItemRow × Option InfoRow} {candidate : Candidate}
    (hcandidate : candidateOfRow row = .ok candidate) :
    candidate.id = row.1.id ∧ candidate.displayName = shownName row.1 row.2 ∧
      candidate.kind = row.1.kind?.getD .file := by
  obtain ⟨size, -, hmade⟩ := bind_eq_ok_iff.mp hcandidate
  obtain rfl := Except.ok.inj hmade
  exact ⟨rfl, rfl, rfl⟩

theorem IsSingle.zeroFree_rowName {c : Catalog} (hc : c.IsSingle) {item : ItemRow}
    (hitem : item ∈ c.items) {name : TextCell}
    (hname : rowName item (c.infoOf item.id) = some name) : ZeroFree name.read := by
  cases Option.or_eq_some_iff.mp hname with
  | inl hfile =>
      obtain ⟨info, hinfo, hnamed⟩ := Option.bind_eq_some_iff.mp hfile
      exact hc.infoNames info (List.mem_of_find?_eq_some hinfo) name hnamed
  | inr hown => exact hc.itemNames item hitem name hown.2

theorem IsKeyed.find?_namedRows {c : Catalog} (hc : c.IsKeyed) {item : ItemRow}
    (hitem : item ∈ c.items) :
    (c.namedRows.find? fun row => row.1.id = item.id) = some (item, c.namingOf item.id) := by
  obtain ⟨front, back, hsplit⟩ := List.append_of_mem hitem
  have hbefore : ∀ other ∈ front, other.id ≠ item.id := by
    have hpairs := hc
    rw [IsKeyed, hsplit, List.pairwise_append] at hpairs
    exact fun other hother => (hpairs.2.2 other hother item List.mem_cons_self).ne
  rw [namedRows, join, List.find?_flatMap, List.findSome?_eq_some_iff]
  refine ⟨front, item, back, hsplit, ?_, ?_⟩
  · obtain ⟨infos, hinfos⟩ := List.head?_eq_some_iff.mp (head?_rowsAbout c.namings item)
    simp [hinfos, namingOf]
  · intro other hother
    simp [hbefore other hother]

/-- The name that is read for an item is that of the first row about the item. -/
theorem IsKeyed.name_of_itemNames {c : Catalog} (hc : c.IsKeyed) {names : ItemNames}
    (hnames : c.itemNames = .ok names) {item : ItemRow} (hitem : item ∈ c.items) :
    names[item.id]?.map (·.name) = some (pathName item (c.namingOf item.id)) := by
  have hfold : ∀ (rows : List (ItemRow × Option InfoRow)) (before after : ItemNames),
      rows.foldlM addName before = .ok after →
        after[item.id]?.map (·.name) = (before[item.id]?.map (·.name)).or
          ((rows.find? fun row => row.1.id = item.id).map fun row => pathName row.1 row.2) := by
    intro rows
    induction rows with
    | nil =>
        intro before after hafter
        obtain rfl := Except.ok.inj hafter
        simp
    | cons row rows ih =>
        intro before after hafter
        rw [List.foldlM_cons] at hafter
        obtain ⟨middle, hadd, hrest⟩ := bind_eq_ok_iff.mp hafter
        obtain ⟨-, -, hadd⟩ := bind_eq_ok_iff.mp hadd
        obtain ⟨type, -, hinserted⟩ := bind_eq_ok_iff.mp hadd
        obtain rfl := Except.ok.inj hinserted
        rw [ih _ after hrest, Std.TreeMap.getElem?_insertIfNew, List.find?_cons]
        by_cases hid : row.1.id = item.id
        · by_cases hknown : item.id ∈ before
          · simp [hid, hknown]
          · simp [hid, hknown, pathName]
        · simp [hid]
  have hname := hfold c.namedRows ∅ names hnames
  rwa [Std.TreeMap.getElem?_emptyc, Option.map_none, Option.none_or, hc.find?_namedRows hitem,
    Option.map_some] at hname

end DiskCatalog.Store.Catalog
