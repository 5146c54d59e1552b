import DiskCatalog.Proofs.Index.Generation
import DiskCatalog.Proofs.Store.Plain

/-!
# Exclusion is a filter

Names and sizes are looked at before the ancestries are resolved, paths after that, and the sizes of
folders are added up last.  On a plain catalog all this comes to one test of the entries that are
made without any exclusion: those that pass are kept as they are, and only the sizes of folders are
counted anew.
-/

namespace DiskCatalog.Index

open Store Pattern

/-! ## What is admitted -/

namespace Options

/-- The patterns keep to the limits of the query engine. -/
structure PatternsFit (options : Options) : Prop where
  filenames : options.exclusion.filenameCondition.HasShortPatterns
  filenameDepth : Catalog.conditionDepth options.exclusion options.minSize ≤ Pattern.maxDepth
  directories : options.exclusion.directoryCondition.HasShortPatterns
  directoryDepth : directoryDepth options.exclusion ≤ Pattern.maxDepth

/-- An item passes by its name and by the size that is known of it. -/
structure AdmitsItem (options : Options) (c : Catalog) (name : String) (id : Int) : Prop where
  name : ∀ glob ∈ options.exclusion.filenames, ¬ Glob.Matches glob.toList name.toList
  size : 0 < options.minSize → c.IsFile id → options.minSize ≤ c.sizeOf id

instance (options : Options) (c : Catalog) (name : String) (id : Int) :
    Decidable (options.AdmitsItem c name id) :=
  decidable_of_iff
    ((∀ glob ∈ options.exclusion.filenames, ¬ Glob.Matches glob.toList name.toList) ∧
      (0 < options.minSize → c.IsFile id → options.minSize ≤ c.sizeOf id))
    ⟨fun h => ⟨h.1, h.2⟩, fun h => ⟨h.name, h.size⟩⟩

/-- An entry passes as its item does, and by the directories in which it lies. -/
structure Admits (options : Options) (c : Catalog) (e : Entry) : Prop extends
    options.AdmitsItem c e.name.read e.id where
  path : ∀ path ∈ e.fullPath, ∀ glob ∈ options.exclusion.directories,
    ¬ Glob.LiesIn glob.toList path.toList

instance (options : Options) (c : Catalog) (e : Entry) : Decidable (options.Admits c e) :=
  decidable_of_iff
    (options.AdmitsItem c e.name.read e.id ∧ ∀ path ∈ e.fullPath,
      ∀ glob ∈ options.exclusion.directories, ¬ Glob.LiesIn glob.toList path.toList)
    ⟨fun h => ⟨h.1, h.2⟩, fun h => ⟨h.toAdmitsItem, h.path⟩⟩

end Options

theorem Options.admits_resize {options : Options} {c : Catalog} (sizeOf : Int → Int) (e : Entry) :
    options.Admits c (e.resize sizeOf) ↔ options.Admits c e := by
  constructor
  · rintro ⟨hitem, hpath⟩
    rw [Entry.resize_name, Entry.resize_id] at hitem
    rw [Entry.resize_fullPath] at hpath
    exact ⟨hitem, hpath⟩
  · rintro ⟨hitem, hpath⟩
    constructor
    · rwa [Entry.resize_name, Entry.resize_id]
    · rwa [Entry.resize_fullPath]

/-- All sums of sizes of some entries can be stored. -/
structure TotalsFit (c : Catalog) (entries : List Entry) : Prop where
  folders : ∀ e ∈ entries, e.kind = .folder → isStorable (sizeBelow c entries e.id)
  files : ∀ front, front <+: entries → isStorable ((front.map Statistics.countedSize).sum)

variable {options : Options} {c : Catalog}

/-! ## Names and sizes -/

section Items

variable (hc : c.IsPlain) (hzero : ∀ p ∈ options.excludes, ∀ text ∈ p, ZeroFree text)

include hc hzero

theorem isKept_iff {item : ItemRow} (hitem : item ∈ c.items) {name : TextCell}
    (hname : Catalog.rowName item (c.infoOf item.id) = some name) (hnameZero : ZeroFree name.read) :
    Catalog.isKept options.exclusion options.minSize (item, c.infoOf item.id) ↔
      item.kind?.isSome ∧ options.AdmitsItem c name.read item.id := by
  have hglobs : ∀ glob ∈ options.exclusion.filenames, ZeroFree glob :=
    fun glob hglob => Exclusion.zeroFree_of_mem_compile hzero (Or.inl hglob)
  have hnames := Exclusion.filenameCondition_holds_iff hglobs hnameZero
  have hsize := Cell.isAtLeast_iff (hc.isTyped_size item.id) options.minSize
  have hfile := hc.keyed.isFile_iff hitem
  cases hkind : item.kind? with
  | none => simp [Catalog.isKept, hkind]
  | some kind =>
      simp only [Catalog.isKept, hkind, hname, Option.map_some, Bool.and_eq_true, hnames, Bool.or_eq_true,
        decide_eq_true_eq, bne_iff_ne, hsize, Option.isSome_some, true_and]
      rw [hkind, Option.some.injEq] at hfile
      constructor
      · rintro ⟨hmatches, hlarge⟩
        refine ⟨hmatches, fun hpositive hisFile => ?_⟩
        rcases hlarge with hsmall | hnot | hlarge
        · omega
        · exact absurd (hfile.mp hisFile) hnot
        · exact hlarge
      · rintro ⟨hmatches, hlarge⟩
        refine ⟨hmatches, ?_⟩
        by_cases hpositive : 0 < options.minSize
        · by_cases hisFile : kind = .file
          · exact Or.inr (Or.inr (hlarge hpositive (hfile.mpr hisFile)))
          · exact Or.inr (Or.inl hisFile)
        · exact Or.inl (by omega)

theorem admitsItem_of_readRow {row : ItemRow × Option InfoRow}
    (hrow : row ∈ c.joinedRows.filter (Catalog.isKept .empty 0)) {candidate : Candidate}
    (hcandidate : Catalog.readRow row = .ok candidate) :
    Catalog.isKept options.exclusion options.minSize row =
      decide (options.AdmitsItem c candidate.displayName.read candidate.id) := by
  obtain ⟨hrow, hindexed⟩ := List.mem_filter.mp hrow
  rw [hc.joinedRows_eq] at hrow
  obtain ⟨item, hitem, rfl⟩ := List.mem_map.mp hrow
  obtain ⟨name, hname, hnameZero, hshown⟩ := hc.exists_rowName hitem
  obtain ⟨-, -, hcandidate⟩ := bind_eq_ok_iff.mp hcandidate
  obtain ⟨size, -, hmade⟩ := bind_eq_ok_iff.mp hcandidate
  obtain rfl := Except.ok.inj hmade
  obtain ⟨kind, hkind⟩ := Catalog.isKept_kind? hindexed
  have hkept := isKept_iff hc hzero hitem hname hnameZero
  rw [Bool.eq_iff_iff, hkept, decide_eq_true_iff, Candidate.displayName, hshown]
  simp [hkind]

/-- The candidates are those that there are without exclusion, as far as they are admitted. -/
theorem candidates_eq_filter (hfit : options.PatternsFit)
    (hmin : 0 < options.minSize → isStorable options.minSize) {all : List Candidate}
    (hall : c.candidates .empty 0 = .ok all) :
    c.candidates options.exclusion options.minSize =
      .ok (all.filter fun candidate =>
        options.AdmitsItem c candidate.displayName.read candidate.id) := by
  have hrows : ∀ (exclusion : Exclusion) (minSize : Int),
      exclusion.filenameCondition.HasShortPatterns →
      Catalog.conditionDepth exclusion minSize ≤ Pattern.maxDepth →
      (0 < minSize → isStorable minSize) →
        c.candidates exclusion minSize =
          (c.joinedRows.filter (Catalog.isKept exclusion minSize)).mapM Catalog.readRow := by
    intro exclusion minSize hshort hdepth hstorable
    have hbound : ¬ (0 < minSize ∧ (!isStorable minSize) = true) := by
      rintro ⟨hpositive, hbeyond⟩
      simp [hstorable hpositive] at hbeyond
    rw [Catalog.candidates, if_neg (by omega), if_neg hbound,
      Catalog.enumerate_eq_mapM hshort minSize hc.joinedRows_ascend (by simp)]
  have hsub : c.joinedRows.filter (Catalog.isKept options.exclusion options.minSize) =
      (c.joinedRows.filter (Catalog.isKept .empty 0)).filter
        (Catalog.isKept options.exclusion options.minSize) := by
    rw [List.filter_filter]
    apply List.filter_congr
    intro row _
    cases hkept : Catalog.isKept options.exclusion options.minSize row with
    | false => rfl
    | true =>
        obtain ⟨kind, hkind⟩ := Catalog.isKept_kind? hkept
        simp [Catalog.isKept, hkind, Exclusion.filenameCondition, Exclusion.empty, Condition.holds]
  rw [hrows .empty 0 (by decide) (by decide) (by simp)] at hall
  rw [hrows _ _ hfit.filenames hfit.filenameDepth hmin, hsub]
  exact mapM_filter_eq_ok hall fun row hrow _ hcandidate =>
    admitsItem_of_readRow hc hzero hrow hcandidate

end Items

/-! ## Ancestries and paths -/

/-- With fewer candidates the same entries are made of those that are left. -/
theorem entries_filter {r : Readings} {maxDepth : Int} {all : List Entry}
    (hall : r.entries maxDepth = .ok all) :
    ({ r with candidates := r.candidates.filter fun candidate =>
        options.AdmitsItem c candidate.displayName.read candidate.id } : Readings).entries maxDepth =
      .ok (all.filter fun e => options.AdmitsItem c e.name.read e.id) := by
  rw [entries_eq_mapM] at hall ⊢
  refine mapM_filter_eq_ok hall fun candidate _ e hentry => ?_
  obtain ⟨hid, hname, -⟩ := entryOf_facts hentry
  rw [hid, hname]

/-- The paths that are made of the names of a plain catalog are free of the character zero. -/
theorem zeroFree_fullPath (hc : c.IsPlain) {r : Readings} (hnames : c.itemNames = .ok r.names)
    {maxDepth : Int} {all : List Entry} (hall : r.entries maxDepth = .ok all) {e : Entry}
    (he : e ∈ all) : ∀ path ∈ e.fullPath, ZeroFree path := by
  have hname : ∀ i, ZeroFree (r.graph.nameOf i).read := by
    intro i
    have hname? : r.graph.name? i = r.names[i]?.map (·.name) := rfl
    rw [ItemGraph.nameOf, hname?]
    cases hnamed : r.names[i]? with
    | none => decide
    | some named => exact hc.zeroFree_itemNames hnames hnamed
  have hclosed : r.graph.IsClosed (ItemGraph.boundOf maxDepth)
      fun _ a => ∀ s ∈ a.segments, ZeroFree s.read := by
    constructor
    · intro i _ s hs
      contradiction
    · intro i s hs
      obtain rfl := List.mem_singleton.mp hs
      exact hname i
    · intro i p _ _ _ s hs
      obtain rfl := List.mem_singleton.mp hs
      exact hname i
    · intro i p a _ ha s hs
      have hmem : s ∈ a.segments ++ [r.graph.nameOf i] := by
        unfold Ancestry.extend at hs
        simp only at hs
        split at hs
        · exact List.mem_of_mem_drop hs
        · exact hs
      rcases List.mem_append.mp hmem with hmem | hmem
      · exact ha s hmem
      · obtain rfl := List.mem_singleton.mp hmem
        exact hname i
  rw [entries_eq_mapM] at hall
  obtain ⟨candidate, -, hentry⟩ := exists_of_mem_mapM hall he
  have hsegments := hclosed.ancestry candidate.id
  obtain ⟨hjoinable, hfull⟩ := Ancestry.fullPath_eq_ok_iff.mp (entryOf_facts hentry).2.2
  intro path hpath
  rw [hfull] at hpath
  split at hpath
  · contradiction
  · obtain rfl := Option.some.inj hpath
    apply zeroFree_intercalate
    intro s hs
    obtain ⟨segment, hsegment, rfl⟩ := List.mem_map.mp hs
    rw [← TextCell.read_eq_shown (hjoinable segment hsegment)]
    exact hsegments segment hsegment

theorem liesOutside_iff (hzero : ∀ p ∈ options.excludes, ∀ text ∈ p, ZeroFree text) {e : Entry}
    (hpath : ∀ path ∈ e.fullPath, ZeroFree path) :
    liesOutside options.exclusion.directoryCondition e ↔
      ∀ path ∈ e.fullPath, ∀ glob ∈ options.exclusion.directories,
        ¬ Glob.LiesIn glob.toList path.toList := by
  have hglobs : ∀ glob ∈ options.exclusion.directories, ZeroFree glob :=
    fun glob hglob => Exclusion.zeroFree_of_mem_compile hzero (Or.inr hglob)
  unfold liesOutside
  cases hfull : e.fullPath with
  | none => simp
  | some path =>
      have hholds := Exclusion.directoryCondition_holds_iff hglobs (hpath path hfull)
      rw [Option.isSome_some, Bool.true_and, Bool.not_eq_true', ← Bool.not_eq_true, hholds]
      simp

theorem dropDirectories_of_fit (hfit : options.PatternsFit) (entries : List Entry) :
    dropDirectories options.exclusion entries =
      .ok (entries.filter (liesOutside options.exclusion.directoryCondition)) := by
  have hdepth : Catalog.conditionDepth options.exclusion 0 ≤
      Catalog.conditionDepth options.exclusion options.minSize := by
    unfold Catalog.conditionDepth
    split_ifs <;> omega
  have hlimits : ({ options with minSize := 0 } : Options).WithinLimits :=
    ⟨⟨hfit.filenames, hdepth.trans hfit.filenameDepth, (by decide : isStorable 0)⟩,
      hfit.directories, hfit.directoryDepth⟩
  exact dropDirectories_eq hlimits entries

/-- What is kept of the entries are those that are admitted. -/
theorem dropDirectories_eq_filter (hfit : options.PatternsFit)
    (hzero : ∀ p ∈ options.excludes, ∀ text ∈ p, ZeroFree text) {all : List Entry}
    (hpaths : ∀ e ∈ all, ∀ path ∈ e.fullPath, ZeroFree path) :
    dropDirectories options.exclusion (all.filter fun e => options.AdmitsItem c e.name.read e.id) =
      .ok (all.filter fun e => options.Admits c e) := by
  rw [dropDirectories_of_fit hfit]
  rw [List.filter_filter]
  congr 1
  apply List.filter_congr
  intro e he
  have houtside := liesOutside_iff hzero (hpaths e he)
  rw [Bool.eq_iff_iff, Bool.and_eq_true, decide_eq_true_iff, decide_eq_true_iff]
  constructor
  · rintro ⟨hout, hitem⟩
    exact ⟨hitem, houtside.mp hout⟩
  · rintro hadmitted
    exact ⟨houtside.mpr hadmitted.path, hadmitted.toAdmitsItem⟩

/-! ## Totals -/

theorem succeeds_storedSum_iff {acc : Int} (hacc : isStorable acc) (numbers : List Int) :
    Succeeds (Statistics.storedSum acc numbers) ↔
      ∀ front, front <+: numbers → isStorable (acc + front.sum) := by
  induction numbers generalizing acc with
  | nil =>
      simp [Statistics.storedSum, List.prefix_nil, hacc]
  | cons n numbers ih =>
      rw [Statistics.storedSum]
      by_cases hn : isStorable (acc + n)
      · rw [if_pos hn, ih hn]
        constructor
        · intro hall front hfront
          cases front with
          | nil => simpa using hacc
          | cons m front =>
              obtain ⟨rfl, hrest⟩ := List.cons_prefix_cons.mp hfront
              rw [List.sum_cons, ← add_assoc]
              exact hall front hrest
        · intro hall front hfront
          have hsum := hall (n :: front) (List.cons_prefix_cons.mpr ⟨rfl, hfront⟩)
          rwa [List.sum_cons, ← add_assoc] at hsum
      · rw [if_neg hn]
        constructor
        · intro hsucceeds
          exact absurd hsucceeds (not_succeeds_error _)
        · intro hall
          have hsum := hall [n] ⟨numbers, rfl⟩
          rw [List.sum_singleton] at hsum
          exact absurd hsum hn

@[simp] theorem countedSize_resize (sizeOf : Int → Int) (e : Entry) :
    Statistics.countedSize (e.resize sizeOf) = Statistics.countedSize e := by
  by_cases hfolder : e.kind = .folder
  · simp [Statistics.countedSize, hfolder]
  · rw [Entry.resize_of_ne_folder _ hfolder]

theorem totalsFit_resize (sizeOf : Int → Int) (entries : List Entry) :
    TotalsFit c (entries.map (Entry.resize sizeOf)) ↔ TotalsFit c entries := by
  have hfront : ∀ front : List Entry, (front.map (Entry.resize sizeOf)).map Statistics.countedSize =
      front.map Statistics.countedSize := by
    intro front
    rw [List.map_map]
    exact List.map_congr_left fun e _ => countedSize_resize sizeOf e
  constructor
  · intro hfit
    constructor
    · intro e he hfolder
      have hstored := hfit.folders (e.resize sizeOf) (List.mem_map_of_mem he) (by simpa using hfolder)
      rwa [sizeBelow_resize, Entry.resize_id] at hstored
    · intro front hinitial
      have hsum := hfit.files (front.map (Entry.resize sizeOf)) (hinitial.map _)
      rwa [hfront] at hsum
  · intro hfit
    constructor
    · intro e he hfolder
      obtain ⟨k, hk, rfl⟩ := List.mem_map.mp he
      rw [sizeBelow_resize, Entry.resize_id]
      exact hfit.folders k hk (by simpa using hfolder)
    · intro front hinitial
      obtain ⟨whole, hwhole, rfl⟩ := List.prefix_map_iff.mp hinitial
      rw [hfront]
      exact hfit.files whole hwhole

/-- The sizes of the kept entries can be stored and added up when their totals fit. -/
theorem totalsFit_iff {links : Catalog.ParentLinks} (hlinks : c.parentLinks = .ok links)
    {entries : List Entry} (hentries : entries.Pairwise (·.id < ·.id))
    (hsizes : ∀ e ∈ entries, e.size.all isStorable) :
    (∀ e ∈ sized links entries, e.size.all isStorable) ∧
        Succeeds (Statistics.ofEntries (sized links entries)) ↔
      TotalsFit c entries := by
  rw [sized_eq_sizeBelow hlinks hentries]
  have hcounted : (entries.map (Entry.resize (sizeBelow c entries))).map Statistics.countedSize =
      entries.map Statistics.countedSize := by
    rw [List.map_map]
    exact List.map_congr_left fun e _ => countedSize_resize _ e
  have hstatistics :
      Succeeds (Statistics.ofEntries (entries.map (Entry.resize (sizeBelow c entries)))) ↔
        ∀ front, front <+: entries.map Statistics.countedSize → isStorable front.sum := by
    have hzero : isStorable 0 := by decide
    have hsum := succeeds_storedSum_iff hzero (entries.map Statistics.countedSize)
    rw [Statistics.ofEntries, succeeds_bind_iff, hcounted]
    simpa [Succeeds] using hsum
  rw [hstatistics]
  constructor
  · rintro ⟨hstored, hsums⟩
    constructor
    · intro e he hfolder
      have hsize := hstored _ (List.mem_map_of_mem (f := Entry.resize (sizeBelow c entries)) he)
      rwa [Entry.resize_of_folder _ hfolder, Option.all_some] at hsize
    · intro front hfront
      exact hsums _ (hfront.map _)
  · intro hfit
    constructor
    · intro e he
      obtain ⟨k, hk, rfl⟩ := List.mem_map.mp he
      by_cases hfolder : k.kind = .folder
      · rw [Entry.resize_of_folder _ hfolder, Option.all_some]
        exact hfit.folders k hk hfolder
      · rw [Entry.resize_of_ne_folder _ hfolder]
        exact hsizes k hk
    · intro front hfront
      obtain ⟨whole, hwhole, rfl⟩ := List.prefix_map_iff.mp hfront
      exact hfit.files whole hwhole

/-! ## Builds -/

theorem readSignature_of_open {path : String} {target : Target}
    (hopen : openCatalog path target = .ok c) :
    ∃ signature, readSignature path target = .ok signature := by
  obtain ⟨modified, size, rfl, -, -⟩ := openCatalog_eq_ok_iff.mp hopen
  exact ⟨_, rfl⟩

theorem succeeds_assemble_iff {path : String} {signature : Signature} {exclusion : Exclusion}
    {maxDepth : Int} {r : Readings} :
    Succeeds (assemble path signature exclusion maxDepth r) ↔
      ∃ resolved kept, r.entries maxDepth = .ok resolved ∧
        (∀ e ∈ resolved, e.size.all isStorable) ∧ dropDirectories exclusion resolved = .ok kept ∧
        (∀ e ∈ sized r.links kept, e.size.all isStorable) ∧
        Succeeds (Statistics.ofEntries (sized r.links kept)) := by
  simp only [assemble, succeeds_bind_iff, storeEntries_eq_ok_iff, withFolderSizes_eq, succeeds_ok,
    and_true, mapError_eq_ok_iff]
  constructor
  · rintro ⟨_, hresolved, resolved, ⟨hsizes, rfl⟩, kept, hkept, _, ⟨hstored, rfl⟩, hstatistics⟩
    exact ⟨resolved, kept, hresolved, hsizes, hkept, hstored, hstatistics⟩
  · rintro ⟨resolved, kept, hresolved, hsizes, hkept, hstored, hstatistics⟩
    exact ⟨resolved, hresolved, resolved, ⟨hsizes, rfl⟩, kept, hkept, _, ⟨hstored, rfl⟩,
      hstatistics⟩

theorem succeeds_build_iff {path : String} {target : Target} (hopen : openCatalog path target = .ok c)
    (options : Options) :
    Succeeds (build path options target).result ↔
      ∃ signature, readSignature path target = .ok signature ∧
      ∃ r, readingsOf c options.exclusion options.minSize = .ok r ∧
        Succeeds (assemble path signature options.exclusion options.maxDepth r) := by
  rw [build_result_eq, hopen, ok_bind, succeeds_bind_iff]
  simp only [succeeds_mapError, succeeds_bind_iff]

/-- A build whose readings, entries and kept entries are known. -/
theorem build_of_readings {path : String} {target : Target} (hopen : openCatalog path target = .ok c)
    {r : Readings} {resolved kept : List Entry}
    (hr : readingsOf c options.exclusion options.minSize = .ok r)
    (hresolved : r.entries options.maxDepth = .ok resolved)
    (hkept : dropDirectories options.exclusion resolved = .ok kept)
    (hsizes : ∀ e ∈ resolved, e.size.all isStorable) :
    (Succeeds (build path options target).result ↔
      (∀ e ∈ sized r.links kept, e.size.all isStorable) ∧
        Succeeds (Statistics.ofEntries (sized r.links kept))) ∧
    ∀ g, (build path options target).result = .ok g → g.entries = sized r.links kept := by
  constructor
  · rw [succeeds_build_iff hopen]
    constructor
    · rintro ⟨signature, -, r', hr', hassemble⟩
      obtain rfl := Except.ok.inj (hr.symm.trans hr')
      obtain ⟨resolved', kept', hresolved', -, hkept', hstored, hstatistics⟩ :=
        succeeds_assemble_iff.mp hassemble
      obtain rfl := Except.ok.inj (hresolved.symm.trans hresolved')
      obtain rfl := Except.ok.inj (hkept.symm.trans hkept')
      exact ⟨hstored, hstatistics⟩
    · rintro ⟨hstored, hstatistics⟩
      obtain ⟨signature, hsignature⟩ := readSignature_of_open hopen
      exact ⟨signature, hsignature, r, hr, succeeds_assemble_iff.mpr
        ⟨resolved, kept, hresolved, hsizes, hkept, hstored, hstatistics⟩⟩
  · intro g hbuild
    obtain ⟨r', resolved', kept', hr', hmade⟩ := build_made hopen hbuild
    obtain rfl := Except.ok.inj (hr.symm.trans hr')
    obtain rfl := Except.ok.inj (hresolved.symm.trans hmade.resolves)
    obtain rfl := Except.ok.inj (hkept.symm.trans hmade.keeps)
    exact hmade.entries

/-- What a build without exclusion has read and made. -/
theorem build_all_eq_ok {path : String} {target : Target} {maxDepth : Int} {all : Generation}
    (hopen : openCatalog path target = .ok c)
    (hall : (build path ⟨[], 0, maxDepth⟩ target).result = .ok all) :
    ∃ r resolved, readingsOf c .empty 0 = .ok r ∧ r.entries maxDepth = .ok resolved ∧
      (∀ e ∈ resolved, e.size.all isStorable) ∧ all.entries = sized r.links resolved := by
  obtain ⟨_, -, r, hr, hassemble⟩ := (succeeds_build_iff hopen _).mp ⟨all, hall⟩
  obtain ⟨resolved, kept, hresolved, hsizes, hkept, -, -⟩ := succeeds_assemble_iff.mp hassemble
  have hsame : resolved = kept := Except.ok.inj hkept
  subst hsame
  exact ⟨r, resolved, hr, hresolved, hsizes,
    (build_of_readings hopen hr hresolved hkept hsizes).2 all hall⟩

theorem isStorable_of_readingsOf {exclusion : Exclusion} {minSize : Int} {r : Readings}
    (hr : readingsOf c exclusion minSize = .ok r) (hpositive : 0 < minSize) :
    isStorable minSize := by
  have hcandidates := (readingsOf_eq_ok hr).1
  unfold Catalog.candidates at hcandidates
  split at hcandidates
  · contradiction
  · split at hcandidates
    · contradiction
    · rename_i hbound
      simpa [hpositive] using hbound

/-- A build with a least size that can be asked for keeps what is admitted of the entries that are
resolved without exclusion. -/
theorem build_of_resolved {path : String} {target : Target}
    (hopen : openCatalog path target = .ok c) (hc : c.IsPlain)
    (hzero : ∀ p ∈ options.excludes, ∀ text ∈ p, ZeroFree text) (hfit : options.PatternsFit)
    (hmin : 0 < options.minSize → isStorable options.minSize) {r : Readings}
    {resolved kept : List Entry} (hr : readingsOf c .empty 0 = .ok r)
    (hresolved : r.entries options.maxDepth = .ok resolved)
    (hsizes : ∀ e ∈ resolved, e.size.all isStorable)
    (hadmitted : kept = resolved.filter fun e => options.Admits c e) :
    (Succeeds (build path options target).result ↔ TotalsFit c kept) ∧
      ∀ g, (build path options target).result = .ok g →
        g.entries = kept.map (Entry.resize (sizeBelow c kept)) := by
  obtain ⟨hcandidates, hlinks, hnames, hvolumes⟩ := readingsOf_eq_ok hr
  have hread : readingsOf c options.exclusion options.minSize =
      .ok { r with candidates := r.candidates.filter fun candidate =>
        options.AdmitsItem c candidate.displayName.read candidate.id } := by
    rw [readingsOf, candidates_eq_filter hc hzero hfit hmin hcandidates, hlinks, hnames, hvolumes]
    rfl
  have hdropped := dropDirectories_eq_filter (c := c) hfit hzero
    fun e he => zeroFree_fullPath hc hnames hresolved he
  rw [← hadmitted] at hdropped
  obtain ⟨hsucceeds, hmade⟩ := build_of_readings hopen hread (entries_filter hresolved) hdropped
    fun e he => hsizes e (List.mem_filter.mp he).1
  have hascend := entries_ascend hresolved (hc.keyed.candidates_ascend hcandidates)
  have hkept : kept.Pairwise (·.id < ·.id) := by
    rw [hadmitted]
    exact hascend.sublist List.filter_sublist
  have hkeptSizes : ∀ e ∈ kept, e.size.all isStorable := by
    rw [hadmitted]
    exact fun e he => hsizes e (List.mem_filter.mp he).1
  constructor
  · exact hsucceeds.trans (totalsFit_iff hlinks hkept hkeptSizes)
  · intro g hg
    rw [hmade g hg]
    exact sized_eq_sizeBelow hlinks hkept

/-- Exclusion keeps the entries that are admitted of those that are made without it, and counts the
sizes of folders anew.  It succeeds when the least size can be asked for and the totals fit. -/
theorem build_excluding {path : String} {target : Target} {all : Generation}
    (hopen : openCatalog path target = .ok c) (hc : c.IsPlain)
    (hzero : ∀ p ∈ options.excludes, ∀ text ∈ p, ZeroFree text) (hfit : options.PatternsFit)
    (hall : (build path ⟨[], 0, options.maxDepth⟩ target).result = .ok all) :
    (Succeeds (build path options target).result ↔
      (0 < options.minSize → isStorable options.minSize) ∧
        TotalsFit c (all.entries.filter fun e => options.Admits c e)) ∧
    ∀ g, (build path options target).result = .ok g →
      g.entries = (all.entries.filter fun e => options.Admits c e).map
        (Entry.resize (sizeBelow c (all.entries.filter fun e => options.Admits c e))) := by
  obtain ⟨r, resolved, hr, hresolved, hsizes, hentries⟩ := build_all_eq_ok hopen hall
  let kept := resolved.filter fun e => options.Admits c e
  let plainSizeOf := fun folder => (folderSizes r.links resolved).getD folder 0
  -- the sizes that folders have without exclusion are counted anew anyway
  have hadmitted : all.entries.filter (fun e => options.Admits c e) =
      kept.map (Entry.resize plainSizeOf) := by
    rw [hentries, sized_eq, List.filter_map]
    congr 1
    apply List.filter_congr
    intro e _
    simp only [Function.comp_apply, Options.admits_resize]
  have hbelow : sizeBelow c (kept.map (Entry.resize plainSizeOf)) = sizeBelow c kept := by
    funext folder
    exact sizeBelow_resize c kept _ folder
  have hwithin := fun hmin =>
    build_of_resolved hopen hc hzero hfit hmin hr hresolved hsizes (rfl : kept = _)
  have hmin : Succeeds (build path options target).result →
      0 < options.minSize → isStorable options.minSize := by
    intro hsucceeds hpositive
    obtain ⟨_, -, r', hr', -⟩ := (succeeds_build_iff hopen options).mp hsucceeds
    exact isStorable_of_readingsOf hr' hpositive
  rw [hadmitted, totalsFit_resize, hbelow]
  constructor
  · constructor
    · intro hsucceeds
      exact ⟨hmin hsucceeds, (hwithin (hmin hsucceeds)).1.mp hsucceeds⟩
    · rintro ⟨hmin, htotals⟩
      exact (hwithin hmin).1.mpr htotals
  · intro g hg
    rw [(hwithin (hmin ⟨g, hg⟩)).2 g hg, List.map_map]
    apply List.map_congr_left
    intro e _
    rw [Function.comp_apply, Entry.resize_resize]

/-- A folder with three files, one of them small, and with a folder that holds a file. -/
def shelf : Catalog where
  tables := (Catalog.ofRows [] [] [] []).tables
  items :=
    [⟨1, .int 200, some "docs"⟩, ⟨2, .int 200, some "cache"⟩, ⟨3, .int 1, some "a.txt"⟩,
     ⟨4, .int 1, some "b.tmp"⟩, ⟨5, .int 1, some "c.txt"⟩, ⟨6, .int 1, some "d.txt"⟩]
  infos :=
    [⟨.int 3, none, none, none, .int 10⟩, ⟨.int 4, none, none, none, .int 20⟩,
     ⟨.int 5, none, none, none, .int 1⟩, ⟨.int 6, none, none, none, .int 30⟩]
  links :=
    [⟨.int 2, .int 1⟩, ⟨.int 3, .int 1⟩, ⟨.int 4, .int 1⟩, ⟨.int 5, .int 1⟩, ⟨.int 6, .int 2⟩]
  volumes := []

theorem build_excluding_shelf :
    ∃ all g, (build "c" ⟨[], 0, 100⟩ (.file ⟨1, 1, .database shelf⟩)).result = .ok all ∧
      (build "c" ⟨["*.tmp", "cache/"], 5, 100⟩ (.file ⟨1, 1, .database shelf⟩)).result = .ok g ∧
      all.entries.length = 6 ∧
      g.entries.map (fun e => (e.name, e.size)) =
        ([("docs", some 10), ("a.txt", some 10)] : List (TextCell × Option Int)) ∧
      g.entries =
        (all.entries.filter fun e => Options.Admits ⟨["*.tmp", "cache/"], 5, 100⟩ shelf e).map
          (Entry.resize (sizeBelow shelf (all.entries.filter fun e =>
            Options.Admits ⟨["*.tmp", "cache/"], 5, 100⟩ shelf e))) := by
  have hplain : shelf.IsPlain :=
    ⟨by decide +kernel, by decide +kernel, by decide +kernel, by decide +kernel, by decide +kernel,
      by decide +kernel⟩
  have hfit : Options.PatternsFit ⟨["*.tmp", "cache/"], 5, 100⟩ :=
    ⟨by decide +kernel, by decide +kernel, by decide +kernel, by decide +kernel⟩
  have hall : (build "c" ⟨[], 0, 100⟩ (.file ⟨1, 1, .database shelf⟩)).result.map
      (fun all => all.entries.length) = .ok 6 := by
    decide +kernel
  have hsome : (build "c" ⟨["*.tmp", "cache/"], 5, 100⟩
      (.file ⟨1, 1, .database shelf⟩)).result.map
        (fun g => g.entries.map fun e => (e.name, e.size)) =
          .ok [("docs", some 10), ("a.txt", some 10)] := by
    decide +kernel
  obtain ⟨all, hall, hlength⟩ := map_eq_ok_iff.mp hall
  obtain ⟨g, hg, hnames⟩ := map_eq_ok_iff.mp hsome
  have hexcluding := build_excluding (c := shelf) (by decide +kernel) hplain (by decide +kernel)
    hfit hall
  exact ⟨all, g, hall, hg, hlength, hnames, hexcluding.2 g hg⟩

end DiskCatalog.Index
