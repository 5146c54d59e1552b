import DiskCatalog.Proofs.Index.Naming

/-!
# Stricter exclusion

With more patterns and a greater least size fewer rows are kept, and fewer entries lie outside of
the excluded directories.  Whatever a stricter build still shows is shown by the other build too, at
the same place.  It is shown by the same row where the row that the other build shows is still kept;
otherwise a later row of the item takes its place.
-/

namespace DiskCatalog.Pattern.Exclusion

/-! ## More patterns -/

variable {patterns more : List (Option String)}

theorem filenames_subset (hsub : patterns ⊆ more) :
    (compile patterns).filenames ⊆ (compile more).filenames :=
  List.filterMap_subset _ (List.map_subset _ hsub)

theorem directories_subset (hsub : patterns ⊆ more) :
    (compile patterns).directories ⊆ (compile more).directories :=
  List.filterMap_subset _ (List.map_subset _ hsub)

variable {e stricter : Exclusion} {value : Option String}

theorem filenameCondition_antitone (hsub : e.filenames ⊆ stricter.filenames)
    (hholds : stricter.filenameCondition.holds value) : e.filenameCondition.holds value := by
  simp only [filenameCondition, Condition.holds, List.all_eq_true, List.forall_mem_map] at hholds ⊢
  exact fun glob hglob => hholds glob (hsub hglob)

theorem directoryCondition_monotone (hsub : e.directories ⊆ stricter.directories)
    (hholds : e.directoryCondition.holds value) : stricter.directoryCondition.holds value := by
  simp only [directoryCondition, Condition.holds, List.any_map, List.any_eq_true] at hholds ⊢
  obtain ⟨glob, hglob, hany⟩ := hholds
  exact ⟨glob, hsub hglob, hany⟩

end DiskCatalog.Pattern.Exclusion

namespace DiskCatalog.Store

open Pattern

/-! ## Fewer rows -/

theorem Cell.isAtLeast_finite {negative : Bool} {m : Nat} {exponent : Int} {v : Rat}
    (hv : (Binary64.finite negative m exponent).toRat? = some v) (bound : Int) :
    (Cell.real (.finite negative m exponent)).isAtLeast bound ↔ (bound : Rat) ≤ v := by
  simp only [isAtLeast, Binary64.compareRat, hv, Option.map_some]
  by_cases hless : v < bound
  · simp [hless]
  · by_cases hsame : v = bound
    · simp [hsame]
    · simp [hless, hsame, not_lt.mp hless]

theorem Cell.isAtLeast_antitone {cell : Cell} {bound greater : Int} (hle : bound ≤ greater)
    (hcell : cell.isAtLeast greater) : cell.isAtLeast bound := by
  cases cell with
  | null =>
      simp only [isAtLeast, decide_eq_true_eq] at hcell ⊢
      omega
  | int n =>
      simp only [isAtLeast, decide_eq_true_eq] at hcell ⊢
      omega
  | text _ | blob _ | broken _ => rfl
  | real x =>
      cases x with
      | nan => exact hcell
      | infinite negative => exact hcell
      | finite negative m exponent =>
          obtain ⟨v, hv⟩ : ∃ v, (Binary64.finite negative m exponent).toRat? = some v := ⟨_, rfl⟩
          rw [isAtLeast_finite hv] at hcell ⊢
          exact (Int.cast_le.mpr hle).trans hcell

namespace Catalog

variable {e stricter : Exclusion} {minSize greater : Int}

theorem isKept_antitone (hsub : e.filenames ⊆ stricter.filenames) (hle : minSize ≤ greater)
    {row : ItemRow × Option InfoRow} (hkept : isKept stricter greater row) :
    isKept e minSize row := by
  obtain ⟨kind, hkind⟩ := isKept_kind? hkept
  simp only [isKept, hkind, Bool.and_eq_true, Bool.or_eq_true, decide_eq_true_eq] at hkept ⊢
  obtain ⟨hname, hlarge⟩ := hkept
  refine ⟨Exclusion.filenameCondition_antitone hsub hname, ?_⟩
  obtain hsmall | hother | hlarge := hlarge
  · exact Or.inl (by omega)
  · exact Or.inr (Or.inl hother)
  · exact Or.inr (Or.inr (Cell.isAtLeast_antitone hle hlarge))

/-- An item of which a row is kept with more exclusion has a first row that is kept with less, and
both are one exactly if the latter is kept in both cases. -/
theorem exists_firstKept_of_stricter {c : Catalog} (hsub : e.filenames ⊆ stricter.filenames)
    (hle : minSize ≤ greater) {item : ItemRow} {later : Option InfoRow}
    (hlater : c.firstKept stricter greater item = some later) :
    ∃ first, c.firstKept e minSize item = some first ∧
      (isKept stricter greater (item, first) ↔ first = later) := by
  have hlaterKept := isKept_of_firstKept hlater
  have hmem : later ∈ rowsAbout c.infos item := List.mem_of_find?_eq_some hlater
  have hsome : (c.firstKept e minSize item).isSome :=
    List.find?_isSome.mpr ⟨later, hmem, isKept_antitone hsub hle hlaterKept⟩
  obtain ⟨first, hfirst⟩ := Option.isSome_iff_exists.mp hsome
  refine ⟨first, hfirst, ?_, ?_⟩
  · intro hkept
    -- no row before the first one is kept with more exclusion
    obtain ⟨-, before, after, hsplit, hbefore⟩ := List.find?_eq_some_iff_append.mp hfirst
    have hnone : ∀ info ∈ before, ¬ isKept stricter greater (item, info) := by
      intro info hinfo hin
      have hout := hbefore info hinfo
      simp [isKept_antitone hsub hle hin] at hout
    have hfound : c.firstKept stricter greater item = some first := by
      apply List.find?_eq_some_iff_append.mpr
      exact ⟨hkept, before, after, hsplit, by simpa using hnone⟩
    rw [hlater] at hfound
    exact (Option.some.inj hfound).symm
  · intro hsame
    rw [hsame]
    exact hlaterKept

end Catalog

end DiskCatalog.Store

namespace DiskCatalog.Index

open Store Pattern

/-! ## Fewer entries -/

theorem outside_eq_ok {condition : Condition} {entries kept : List Entry}
    (hkept : outside condition entries = .ok kept) :
    kept = entries.filter (liesOutside condition) := by
  induction entries generalizing kept with
  | nil => exact (Except.ok.inj hkept).symm
  | cons e entries ih =>
      rw [outside] at hkept
      cases hpath : e.fullPath with
      | none =>
          simp only [hpath, Option.isNone_none, if_true, ok_bind] at hkept
          obtain ⟨rest, hrest, hkept⟩ := bind_eq_ok_iff.mp hkept
          simpa [liesOutside, hpath, ih hrest] using (Except.ok.inj hkept).symm
      | some path =>
          simp only [hpath, Option.isNone_some, Bool.false_eq_true, if_false] at hkept
          obtain ⟨inside, hinside, hkept⟩ := bind_eq_ok_iff.mp hkept
          obtain ⟨rest, hrest, hkept⟩ := bind_eq_ok_iff.mp hkept
          have hholds := Condition.check_eq_ok hinside
          cases inside <;>
            simpa [liesOutside, hpath, hholds, ih hrest] using (Except.ok.inj hkept).symm

theorem dropDirectories_eq_ok {exclusion : Exclusion} {entries kept : List Entry}
    (hkept : dropDirectories exclusion entries = .ok kept) :
    kept = entries.filter (liesOutside exclusion.directoryCondition) := by
  unfold dropDirectories at hkept
  split at hkept
  · rename_i hempty
    have hall : ∀ e ∈ entries, liesOutside exclusion.directoryCondition e := by
      simp [liesOutside, Exclusion.directoryCondition, List.isEmpty_iff.mp hempty, Condition.holds]
    rw [List.filter_eq_self.mpr hall, Except.ok.inj hkept]
  · split at hkept
    · contradiction
    · exact outside_eq_ok (mapError_eq_ok_iff.mp hkept)

theorem liesOutside_antitone {e stricter : Exclusion}
    (hsub : e.directories ⊆ stricter.directories) {entry other : Entry}
    (hpath : entry.fullPath = other.fullPath)
    (hout : liesOutside stricter.directoryCondition other) :
    liesOutside e.directoryCondition entry := by
  unfold liesOutside at hout ⊢
  rw [hpath]
  simp only [Bool.not_eq_true', Bool.and_eq_false_imp] at hout ⊢
  intro hsome
  have hstricter := hout hsome
  by_contra hin
  rw [Bool.not_eq_false] at hin
  rw [Exclusion.directoryCondition_monotone hsub hin] at hstricter
  contradiction

/-- What does not depend on the row by which an item is shown. -/
structure Entry.SamePlace (e other : Entry) : Prop where
  id : e.id = other.id
  kind : e.kind = other.kind
  fullPath : e.fullPath = other.fullPath
  volumeLabel : e.volumeLabel = other.volumeLabel
  volumeRoot : e.volumeRoot = other.volumeRoot

theorem Entry.SamePlace.resize {e other : Entry} (hplace : e.SamePlace other)
    (sizeOf sizeOf' : Int → Int) : (e.resize sizeOf).SamePlace (other.resize sizeOf') := by
  constructor
  · simpa using hplace.id
  · simpa using hplace.kind
  · simpa using hplace.fullPath
  · simpa using hplace.volumeLabel
  · simpa using hplace.volumeRoot

theorem entryOf_samePlace {r : Readings} {item : ItemRow} {info info' : Option InfoRow}
    {candidate candidate' : Candidate} {ancestry : Ancestry} {e e' : Entry}
    (hcandidate : Catalog.candidateOfRow (item, info) = .ok candidate)
    (hcandidate' : Catalog.candidateOfRow (item, info') = .ok candidate')
    (hentry : r.entryOf candidate ancestry = .ok e)
    (hentry' : r.entryOf candidate' ancestry = .ok e') : e.SamePlace e' := by
  obtain ⟨hid, -, hkind⟩ := Catalog.candidateOfRow_facts hcandidate
  obtain ⟨hid', -, hkind'⟩ := Catalog.candidateOfRow_facts hcandidate'
  obtain ⟨_, -, hentry⟩ := bind_eq_ok_iff.mp hentry
  obtain ⟨_, -, hentry⟩ := bind_eq_ok_iff.mp hentry
  obtain ⟨full, hfull, hentry⟩ := bind_eq_ok_iff.mp hentry
  obtain ⟨_, -, hentry'⟩ := bind_eq_ok_iff.mp hentry'
  obtain ⟨_, -, hentry'⟩ := bind_eq_ok_iff.mp hentry'
  obtain ⟨full', hfull', hentry'⟩ := bind_eq_ok_iff.mp hentry'
  obtain rfl := Except.ok.inj (hfull.symm.trans hfull')
  obtain rfl := Except.ok.inj hentry
  obtain rfl := Except.ok.inj hentry'
  constructor
  · exact hid.trans hid'.symm
  · simp only [hid, hid', hkind, hkind']
  · rfl
  · rfl
  · rfl

/-- Two readings of one catalog differ in their candidates only. -/
theorem readingsOf_agree {c : Catalog} {exclusion exclusion' : Exclusion} {minSize minSize' : Int}
    {r r' : Readings} (hr : readingsOf c exclusion minSize = .ok r)
    (hr' : readingsOf c exclusion' minSize' = .ok r') :
    r' = { r with candidates := r'.candidates } := by
  obtain ⟨-, hlinks, hnames, hvolumes⟩ := readingsOf_eq_ok hr
  obtain ⟨-, hlinks', hnames', hvolumes'⟩ := readingsOf_eq_ok hr'
  obtain ⟨candidates', links', names', volumes'⟩ := r'
  obtain rfl := Except.ok.inj (hlinks.symm.trans hlinks')
  obtain rfl := Except.ok.inj (hnames.symm.trans hnames')
  obtain rfl := Except.ok.inj (hvolumes.symm.trans hvolumes')
  rfl

/-- An entry of a stricter build and that of the other build, with the rows by which they are
shown.  By the same row they are alike but for the sizes of folders. -/
structure Entry.RemainsOf (later e : Entry) (item : ItemRow) (shown shown' : Option InfoRow) :
    Prop where
  id : item.id = later.id
  place : e.SamePlace later
  name : e.name = Catalog.shownName item shown
  laterName : later.name = Catalog.shownName item shown'
  same : shown = shown' → ∃ sizeOf, later = e.resize sizeOf

theorem remainsOf_of_entryOf {r : Readings} {item : ItemRow} {shown shown' : Option InfoRow}
    {candidate candidate' : Candidate} {ancestry : Ancestry} {e later : Entry}
    (hcandidate : Catalog.candidateOfRow (item, shown) = .ok candidate)
    (hcandidate' : Catalog.candidateOfRow (item, shown') = .ok candidate')
    (hentry : r.entryOf candidate ancestry = .ok e)
    (hlater : r.entryOf candidate' ancestry = .ok later) (sizeOf sizeOf' : Int → Int) :
    (later.resize sizeOf').RemainsOf (e.resize sizeOf) item shown shown' := by
  obtain ⟨-, hname, -⟩ := entryOf_facts hentry
  obtain ⟨hid, hlaterName, -⟩ := entryOf_facts hlater
  constructor
  case id => rw [Entry.resize_id, hid, (Catalog.candidateOfRow_facts hcandidate').1]
  case place => exact (entryOf_samePlace hcandidate hcandidate' hentry hlater).resize sizeOf sizeOf'
  case name => rw [Entry.resize_name, hname, (Catalog.candidateOfRow_facts hcandidate).2.1]
  case laterName =>
    rw [Entry.resize_name, hlaterName, (Catalog.candidateOfRow_facts hcandidate').2.1]
  case same =>
    intro heq
    subst heq
    obtain rfl := Except.ok.inj (hcandidate.symm.trans hcandidate')
    obtain rfl := Except.ok.inj (hentry.symm.trans hlater)
    exact ⟨sizeOf', (Entry.resize_resize sizeOf' e sizeOf).symm⟩

/-- Whatever a stricter build shows is shown by the other build, too, and by the same row if that
is still kept. -/
theorem build_stricter {path : String} {options stricter : Options} {target : Target} {c : Catalog}
    {g g' : Generation} (hopen : openCatalog path target = .ok c) (hc : c.IsKeyed)
    (hexcludes : options.excludes ⊆ stricter.excludes) (hmin : options.minSize ≤ stricter.minSize)
    (hdepth : stricter.maxDepth = options.maxDepth)
    (hbuild : (build path options target).result = .ok g)
    (hstricter : (build path stricter target).result = .ok g') {later : Entry}
    (hlater : later ∈ g'.entries) :
    ∃ e ∈ g.entries, ∃ item ∈ c.items, ∃ shown shown',
      c.firstKept options.exclusion options.minSize item = some shown ∧
      c.firstKept stricter.exclusion stricter.minSize item = some shown' ∧
      (Catalog.isKept stricter.exclusion stricter.minSize (item, shown) ↔ shown = shown') ∧
      later.RemainsOf e item shown shown' := by
  obtain ⟨r, resolved, kept, hr, hmade⟩ := build_made hopen hbuild
  obtain ⟨r', resolved', kept', hr', hmade'⟩ := build_made hopen hstricter
  obtain ⟨sizeOf, hentries⟩ : ∃ sizeOf, g.entries = kept.map (Entry.resize sizeOf) :=
    ⟨_, hmade.entries.trans (sized_eq r.links kept)⟩
  obtain ⟨sizeOf', hentries'⟩ : ∃ sizeOf', g'.entries = kept'.map (Entry.resize sizeOf') :=
    ⟨_, hmade'.entries.trans (sized_eq r'.links kept')⟩
  rw [hentries'] at hlater
  obtain ⟨k', hk', rfl⟩ := List.mem_map.mp hlater
  rw [dropDirectories_eq_ok hmade'.keeps] at hk'
  obtain ⟨hresolved', hout'⟩ := List.mem_filter.mp hk'
  -- the item of the entry has a row that is kept with less exclusion
  obtain ⟨item, hitem, shown', candidate', hshown', hcandidate', hentry'⟩ :=
    exists_row_of_mem_resolved hc hr' hmade'.resolves hresolved'
  obtain ⟨shown, hshown, hsame⟩ :=
    Catalog.exists_firstKept_of_stricter (Exclusion.filenames_subset hexcludes) hmin hshown'
  obtain ⟨candidate, hcandidate, k, hresolved, hentry⟩ :=
    exists_resolved_of_firstKept hc hr hmade.resolves hitem hshown
  -- both entries are made in the same graph
  rw [readingsOf_agree hr hr', hdepth] at hentry'
  change r.entryOf candidate' (r.graph.ancestry options.maxDepth item.id) = .ok k' at hentry'
  have hplace := entryOf_samePlace hcandidate hcandidate' hentry hentry'
  have hout := liesOutside_antitone (Exclusion.directories_subset hexcludes) hplace.fullPath hout'
  have hkept : k ∈ kept := by
    rw [dropDirectories_eq_ok hmade.keeps]
    exact List.mem_filter.mpr ⟨hresolved, hout⟩
  have he : k.resize sizeOf ∈ g.entries := by
    rw [hentries]
    exact List.mem_map_of_mem hkept
  exact ⟨_, he, item, hitem, shown, shown', hshown, hshown', hsame,
    remainsOf_of_entryOf hcandidate hcandidate' hentry hentry' sizeOf sizeOf'⟩

theorem build_stricter_shelf :
    ∃ g g' later e item shown shown',
      (build "c" ⟨[], 0, 100⟩ (.file ⟨1, 1, .database shelf⟩)).result = .ok g ∧
      (build "c" ⟨["*.tmp"], 5, 100⟩ (.file ⟨1, 1, .database shelf⟩)).result = .ok g' ∧
      later ∈ g'.entries ∧ later.name = "docs" ∧ later.size = some 40 ∧ e ∈ g.entries ∧
      later.RemainsOf e item shown shown' := by
  have hbuild : Succeeds (build "c" ⟨[], 0, 100⟩ (.file ⟨1, 1, .database shelf⟩)).result := by
    rw [← succeeds_map (f := fun g => g.entries.length)]
    exact ⟨6, by decide +kernel⟩
  have hstricter : (build "c" ⟨["*.tmp"], 5, 100⟩ (.file ⟨1, 1, .database shelf⟩)).result.map
      (fun g => (g.entries.map fun e => (e.name, e.size)).head?) =
        .ok (some ("docs", some 40)) := by
    decide +kernel
  obtain ⟨g, hg⟩ := hbuild
  obtain ⟨g', hg', hhead⟩ := map_eq_ok_iff.mp hstricter
  obtain ⟨later, hlater, hpair⟩ := List.mem_map.mp (List.mem_of_mem_head? hhead)
  obtain ⟨hname, hsize⟩ := Prod.mk.inj hpair
  have hopen : openCatalog "c" (.file ⟨1, 1, .database shelf⟩) = .ok shelf := by decide +kernel
  have hexcludes : (⟨[], 0, 100⟩ : Options).excludes ⊆
      (⟨["*.tmp"], 5, 100⟩ : Options).excludes := List.nil_subset _
  obtain ⟨e, he, item, -, shown, shown', -, -, -, hremains⟩ :=
    build_stricter hopen (by decide +kernel) hexcludes (by decide) rfl hg hg' hlater
  exact ⟨g, g', later, e, item, shown, shown', hg, hg', hlater, hname, hsize, he, hremains⟩

/-- Where a first row is left out, the item is shown by a row that is not shown without
exclusion. -/
theorem build_stricter_renames :
    ∃ g g',
      (build "c" ⟨[], 0, 100⟩ (.file ⟨1, 1, .database (drawer ["a.tmp", "b.txt"])⟩)).result =
        .ok g ∧
      (build "c" ⟨["*.tmp"], 0, 100⟩
        (.file ⟨1, 1, .database (drawer ["a.tmp", "b.txt"])⟩)).result = .ok g' ∧
      ∃ later ∈ g'.entries, ∀ e ∈ g.entries, e.name ≠ later.name := by
  have hbuild : (build "c" ⟨[], 0, 100⟩
      (.file ⟨1, 1, .database (drawer ["a.tmp", "b.txt"])⟩)).result.map
        (fun g => g.entries.map (·.name)) = .ok ["d", "a.tmp"] := by
    decide +kernel
  have hstricter : (build "c" ⟨["*.tmp"], 0, 100⟩
      (.file ⟨1, 1, .database (drawer ["a.tmp", "b.txt"])⟩)).result.map
        (fun g => g.entries.map (·.name)) = .ok ["d", "b.txt"] := by
    decide +kernel
  obtain ⟨g, hg, hnames⟩ := map_eq_ok_iff.mp hbuild
  obtain ⟨g', hg', hnames'⟩ := map_eq_ok_iff.mp hstricter
  have hmem : TextCell.text "b.txt" ∈ g'.entries.map (·.name) := by
    rw [hnames']
    decide
  obtain ⟨later, hlater, hname⟩ := List.mem_map.mp hmem
  refine ⟨g, g', hg, hg', later, hlater, fun e he heq => ?_⟩
  have hother : TextCell.text "b.txt" ∈ g.entries.map (·.name) :=
    List.mem_map.mpr ⟨e, he, heq.trans hname⟩
  rw [hnames] at hother
  revert hother
  decide

end DiskCatalog.Index
