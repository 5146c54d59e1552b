import DiskCatalog.Proofs.Index.Naming

/-!
# The names that filename patterns judge

The patterns look at the name of a joined row.  That is the name which is shown, except for two
kinds of rows: a row without any name is shown by the empty name and left out by every pattern, and
an empty name of a file is looked at although the name of the item is shown.  Of all other items
those are left out of which the shown name matches.
-/

namespace DiskCatalog.Pattern.Exclusion

open Store

/-- A name matches some active filename pattern. -/
def MatchesName (e : Exclusion) (name : TextCell) : Prop :=
  ∃ glob ∈ e.filenames, Glob.Matches glob.toList name.read.toList

instance (e : Exclusion) (name : TextCell) : Decidable (e.MatchesName name) :=
  inferInstanceAs (Decidable (∃ glob ∈ e.filenames, Glob.Matches glob.toList name.read.toList))

/-- A row without any name is left out by patterns that its shown name does not match. -/
structure Loses (e : Exclusion) (item : ItemRow) (info : Option InfoRow) : Prop where
  nameless : Catalog.rowName item info = none
  active : e.filenames ≠ []
  unmatched : ¬ e.MatchesName ""

/-- An empty name of the file stands before the name of the item, which matches. -/
structure Overlooks (e : Exclusion) (item : ItemRow) (info : Option InfoRow) : Prop where
  empty : ∃ name ∈ info.bind (·.name), name.isEmpty
  unmatched : ¬ e.MatchesName ""
  own : e.MatchesName (item.name.getD "")

theorem MatchesName.active {e : Exclusion} {name : TextCell} (hname : e.MatchesName name) :
    e.filenames ≠ [] := by
  obtain ⟨glob, hglob, -⟩ := hname
  exact List.ne_nil_of_mem hglob

/-- Compiled patterns that match the empty name match every name. -/
theorem MatchesName.of_empty {patterns : List (Option String)}
    (hempty : (compile patterns).MatchesName "") (name : TextCell) :
    (compile patterns).MatchesName name := by
  obtain ⟨glob, hglob, hmatches⟩ := hempty
  exact ⟨glob, hglob, hmatches.of_nil (ne_nil_of_mem_filenames hglob) name.read.toList⟩

/-- Whether the patterns leave out what has a name, or none. -/
def LeavesOut (e : Exclusion) : Option TextCell → Prop
  | none => e.filenames ≠ []
  | some name => e.MatchesName name

theorem leavesOut_iff {e : Exclusion} (hglobs : ∀ glob ∈ e.filenames, ZeroFree glob)
    {name : Option TextCell} (hname : ∀ n ∈ name, ZeroFree n.read) :
    e.LeavesOut name ↔ e.filenameCondition.holds (name.map (·.read)) = false := by
  cases name with
  | none => cases hfilenames : e.filenames <;>
      simp [LeavesOut, filenameCondition, Condition.holds, Comparison.holds, hfilenames]
  | some n =>
      have hholds := filenameCondition_holds_iff hglobs (hname n rfl)
      rw [Option.map_some, ← Bool.not_eq_true, hholds]
      simp [LeavesOut, MatchesName]

/-! What is looked at of a row and what is shown of it differ in two cases. -/

variable {e : Exclusion} {item : ItemRow} {info : Option InfoRow}

theorem matchesName_of_isEmpty {name : TextCell} (hname : name.isEmpty) :
    e.MatchesName name ↔ e.MatchesName "" := by
  have hread : name.read = "" := by
    cases name with
    | text s => exact String.isEmpty_iff.mp hname
    | blob bytes | broken bytes =>
        obtain rfl := List.isEmpty_iff.mp hname
        rfl
  rw [MatchesName, hread]
  rfl

theorem loses_iff (hall : e.MatchesName "" → ∀ name, e.MatchesName name) :
    e.LeavesOut (Catalog.rowName item info) ∧ ¬ e.MatchesName (Catalog.shownName item info) ↔
      e.Loses item info := by
  have hnamed : ∀ name, Catalog.rowName item info = some name → ¬ e.Loses item info := by
    intro name hrow hloses
    rw [hloses.nameless] at hrow
    contradiction
  obtain ⟨-, hrow, hshown⟩ | ⟨name, -, hempty, hrow, -⟩ | ⟨-, hrow⟩ :=
    Catalog.rowName_cases item info
  · rw [hrow, hshown]
    exact ⟨fun h => ⟨hrow, h.1, h.2⟩, fun h => ⟨h.active, h.unmatched⟩⟩
  · rw [hrow]
    exact iff_of_false (fun h => h.2 (hall ((matchesName_of_isEmpty hempty).mp h.1) _))
      (hnamed _ hrow)
  · rw [hrow]
    exact iff_of_false (fun h => h.2 h.1) (hnamed _ hrow)

theorem overlooks_iff :
    ¬ e.LeavesOut (Catalog.rowName item info) ∧ e.MatchesName (Catalog.shownName item info) ↔
      e.Overlooks item info := by
  have hfilled : (∀ name ∈ info.bind (·.name), ¬ name.isEmpty) → ¬ e.Overlooks item info := by
    rintro hfile ⟨⟨name, hname, hempty⟩, -, -⟩
    exact hfile name hname hempty
  obtain ⟨hfile, hrow, -⟩ | ⟨name, hfile, hempty, hrow, hshown⟩ | ⟨hfile, hrow⟩ :=
    Catalog.rowName_cases item info
  · rw [hrow]
    exact iff_of_false (fun h => h.1 h.2.active) (hfilled (by simp [hfile]))
  · rw [hrow, hshown, LeavesOut, matchesName_of_isEmpty hempty]
    exact ⟨fun h => ⟨⟨name, hfile, hempty⟩, h.1, h.2⟩, fun h => ⟨h.unmatched, h.own⟩⟩
  · rw [hrow]
    exact iff_of_false (fun h => h.1 h.2) (hfilled hfile)

end DiskCatalog.Pattern.Exclusion

namespace DiskCatalog.Index

open Store Pattern

/-! ## Items that are left out -/

/-- None of the candidates is made of an item. -/
def LeftOut (found : List Candidate) (item : ItemRow) : Prop :=
  ∀ candidate ∈ found, candidate.id ≠ item.id

section Items

variable {c : Catalog} (hc : c.IsSingle) {exclusion : Exclusion} {minSize : Int}
  (hmin : minSize ≤ 0) (hglobs : ∀ glob ∈ exclusion.filenames, ZeroFree glob)

include hc hmin hglobs

theorem isKept_iff_of_single {item : ItemRow} (hitem : item ∈ c.items) :
    Catalog.isKept exclusion minSize (item, c.infoOf item.id) ↔
      item.kind?.isSome ∧ ¬ exclusion.LeavesOut (Catalog.rowName item (c.infoOf item.id)) := by
  rw [Exclusion.leavesOut_iff hglobs fun name hname => hc.zeroFree_rowName hitem hname]
  cases hkind : item.kind? with
  | none => simp [Catalog.isKept, hkind]
  | some kind => simp [Catalog.isKept, hkind, hmin]

theorem leftOut_iff {found : List Candidate} (hfound : c.candidates exclusion minSize = .ok found)
    {item : ItemRow} (hitem : item ∈ c.items) (hkind : item.kind?.isSome) :
    LeftOut found item ↔ exclusion.LeavesOut (Catalog.rowName item (c.infoOf item.id)) := by
  have hids : found.map (·.id) =
      (Catalog.chosen exclusion minSize none c.joinedRows).map (·.1.id) :=
    map_eq_of_mapM_eq_ok (fun _ _ hmade => (Catalog.candidateOfRow_facts hmade).1)
      (Catalog.mapM_chosen_of_candidates hfound)
  have hfirst : c.firstKept exclusion minSize item = _ :=
    Catalog.firstKept_of_single (hc.single item hitem)
  have hkept := isKept_iff_of_single hc hmin hglobs hitem
  have hchosen : item.id ∈ found.map (·.id) ↔
      Catalog.isKept exclusion minSize (item, c.infoOf item.id) := by
    rw [hids]
    constructor
    · intro hmem
      obtain ⟨row, hrow, hid⟩ := List.mem_map.mp hmem
      obtain ⟨hrowItem, hinfo⟩ := hc.keyed.mem_chosen_iff.mp hrow
      rw [hc.keyed.eq_of_id_eq hrowItem hitem hid, hfirst] at hinfo
      by_contra hout
      rw [if_neg hout] at hinfo
      contradiction
    · intro hin
      rw [if_pos hin] at hfirst
      exact List.mem_map.mpr
        ⟨(item, c.infoOf item.id), hc.keyed.mem_chosen_iff.mpr ⟨hitem, hfirst⟩, rfl⟩
  have hleft : LeftOut found item ↔ item.id ∉ found.map (·.id) := by
    simp [LeftOut]
  rw [hleft, hchosen, hkept, not_and, not_not]
  exact ⟨fun h => h hkind, fun h _ => h⟩

end Items

/-- The patterns leave out the items of which the shown name matches, but for the two kinds of rows
that they misjudge. -/
structure NamesJudged (e : Exclusion) (c : Catalog) (found : List Candidate)
    (entries : List Entry) : Prop where
  judged : ∀ item ∈ c.items, item.kind?.isSome → ¬ e.Loses item (c.infoOf item.id) →
    ¬ e.Overlooks item (c.infoOf item.id) →
      (LeftOut found item ↔ e.MatchesName (Catalog.shownName item (c.infoOf item.id)))
  lost : ∀ item ∈ c.items, item.kind?.isSome →
    (LeftOut found item ∧ ¬ e.MatchesName (Catalog.shownName item (c.infoOf item.id)) ↔
      e.Loses item (c.infoOf item.id))
  overlooked : ∀ item ∈ c.items, item.kind?.isSome →
    (¬ LeftOut found item ∧ e.MatchesName (Catalog.shownName item (c.infoOf item.id)) ↔
      e.Overlooks item (c.infoOf item.id))
  entries : ∀ entry ∈ entries, e.MatchesName entry.name →
    ∃ item ∈ c.items, item.id = entry.id ∧ e.Overlooks item (c.infoOf item.id)

/-- In a build without a least size the filename patterns judge the names that are shown, unless a
row has no name or an empty name of the file. -/
theorem build_namesJudged {path : String} {options : Options} {target : Target} {c : Catalog}
    {g : Generation} (hopen : openCatalog path target = .ok c) (hc : c.IsSingle)
    (hzero : ∀ p ∈ options.excludes, ∀ text ∈ p, ZeroFree text) (hmin : options.minSize ≤ 0)
    (hbuild : (build path options target).result = .ok g) :
    ∃ found, c.candidates options.exclusion options.minSize = .ok found ∧
      NamesJudged options.exclusion c found g.entries := by
  obtain ⟨r, _, _, hr, -⟩ := build_made hopen hbuild
  have hfound := (readingsOf_eq_ok hr).1
  have hglobs : ∀ glob ∈ options.exclusion.filenames, ZeroFree glob :=
    fun glob hglob => Exclusion.zeroFree_of_mem_compile hzero (Or.inl hglob)
  have hall : options.exclusion.MatchesName "" → ∀ name, options.exclusion.MatchesName name :=
    Exclusion.MatchesName.of_empty
  have hlost : ∀ item ∈ c.items, item.kind?.isSome →
      (LeftOut r.candidates item ∧
          ¬ options.exclusion.MatchesName (Catalog.shownName item (c.infoOf item.id)) ↔
        options.exclusion.Loses item (c.infoOf item.id)) := by
    intro item hitem hkind
    rw [leftOut_iff hc hmin hglobs hfound hitem hkind]
    exact Exclusion.loses_iff hall
  have hoverlooked : ∀ item ∈ c.items, item.kind?.isSome →
      (¬ LeftOut r.candidates item ∧
          options.exclusion.MatchesName (Catalog.shownName item (c.infoOf item.id)) ↔
        options.exclusion.Overlooks item (c.infoOf item.id)) := by
    intro item hitem hkind
    rw [leftOut_iff hc hmin hglobs hfound hitem hkind]
    exact Exclusion.overlooks_iff
  refine ⟨r.candidates, hfound, ?judged, hlost, hoverlooked, ?entries⟩
  case judged =>
    intro item hitem hkind hloses hoverlooks
    rw [← hlost item hitem hkind] at hloses
    rw [← hoverlooked item hitem hkind] at hoverlooks
    tauto
  case entries =>
    intro entry hentry hmatches
    obtain ⟨item, hitem, hid, shown, hshown, hnamed⟩ := build_namedBy hopen hc.keyed hbuild hentry
    rw [Catalog.firstKept_of_single (hc.single item hitem), Option.ite_none_right_eq_some] at hshown
    obtain ⟨hkept, hsame⟩ := hshown
    obtain rfl := Option.some.inj hsame
    have hin := (isKept_iff_of_single hc hmin hglobs hitem).mp hkept
    rw [hnamed.name] at hmatches
    exact ⟨item, hitem, hid, Exclusion.overlooks_iff.mp ⟨hin.2, hmatches⟩⟩

/-- Three files: one with an empty name of its own, one without any name, and a plain one. -/
def oddNames : Catalog where
  tables := (Catalog.ofRows [] [] [] []).tables
  items := [⟨1, .int 1, some "junk.tmp"⟩, ⟨2, .int 1, none⟩, ⟨3, .int 1, some "a.tmp"⟩]
  infos := [⟨.int 1, some "", none, none, .int 5⟩]
  links := []
  volumes := []

theorem build_namesJudged_oddNames :
    ∃ g found,
      (build "c" ⟨["*.tmp"], 0, 100⟩ (.file ⟨1, 1, .database oddNames⟩)).result = .ok g ∧
      oddNames.candidates (.compile ["*.tmp"]) 0 = .ok found ∧
      NamesJudged (.compile ["*.tmp"]) oddNames found g.entries := by
  have hsingle : oddNames.IsSingle :=
    ⟨by decide +kernel, by decide +kernel, by decide +kernel, by decide +kernel⟩
  have hbuild : (build "c" ⟨["*.tmp"], 0, 100⟩ (.file ⟨1, 1, .database oddNames⟩)).result.map
      (fun g => g.entries.map (·.name)) = .ok ["junk.tmp"] := by
    decide +kernel
  obtain ⟨g, hg, -⟩ := map_eq_ok_iff.mp hbuild
  obtain ⟨found, hfound, hjudged⟩ :=
    build_namesJudged (c := oddNames) (by decide +kernel) hsingle (by decide +kernel)
      (by decide +kernel) hg
  exact ⟨g, found, hg, hfound, hjudged⟩

/-- Of the files of which the shown name matches one is kept, and one is left out of which it does
not. -/
theorem build_misjudges_names :
    ∃ g found,
      (build "c" ⟨["*.tmp"], 0, 100⟩ (.file ⟨1, 1, .database oddNames⟩)).result = .ok g ∧
      oddNames.candidates (.compile ["*.tmp"]) 0 = .ok found ∧
      (∃ entry ∈ g.entries, Exclusion.MatchesName (.compile ["*.tmp"]) entry.name) ∧
      (∃ item ∈ oddNames.items, item.kind?.isSome ∧ ¬ LeftOut found item ∧
        Exclusion.MatchesName (.compile ["*.tmp"])
          (Catalog.shownName item (oddNames.infoOf item.id))) ∧
      ∃ item ∈ oddNames.items, item.kind?.isSome ∧ LeftOut found item ∧
        ¬ Exclusion.MatchesName (.compile ["*.tmp"])
          (Catalog.shownName item (oddNames.infoOf item.id)) := by
  have hbuild : (build "c" ⟨["*.tmp"], 0, 100⟩ (.file ⟨1, 1, .database oddNames⟩)).result.map
      (fun g => g.entries.map (·.name)) = .ok ["junk.tmp"] := by
    decide +kernel
  have hcandidates : (oddNames.candidates (.compile ["*.tmp"]) 0).map (·.map (·.id)) = .ok [1] := by
    decide +kernel
  obtain ⟨g, hg, hnames⟩ := map_eq_ok_iff.mp hbuild
  obtain ⟨found, hfound, hids⟩ := map_eq_ok_iff.mp hcandidates
  have hleft : ∀ item, LeftOut found item ↔ item.id ∉ [1] := by
    intro item
    rw [← hids]
    simp [LeftOut]
  have hentry : TextCell.text "junk.tmp" ∈ g.entries.map (·.name) := by
    rw [hnames]
    exact List.mem_cons_self
  obtain ⟨entry, hmem, hname⟩ := List.mem_map.mp hentry
  refine ⟨g, found, hg, hfound, ⟨entry, hmem, ?_⟩, ?_⟩
  · rw [hname]
    decide +kernel
  · simp only [hleft]
    exact ⟨by decide +kernel, by decide +kernel⟩

end DiskCatalog.Index
