import DiskCatalog.Proofs.Index.Agreement
import DiskCatalog.Proofs.Index.Stricter

/-!
# What is redundant

Link rows may come in any order and more than once, and rows that link an item to no parent say
nothing.  Patterns may come in any order and more than once, with or without a star behind the slash
of a directory.  A build reads the links into sets of parents and asks the patterns only whether one
of them matches, so none of this changes its entries or its statistics.  But every link row is read:
a row that says nothing still fails the build if its item cannot be read.
-/

namespace DiskCatalog

namespace Store

/-- A row that links its item to no parent. -/
def LinkRow.IsMarker (row : LinkRow) : Prop :=
  row.parent = .null ∨ row.parent.toInteger = .ok 0

instance (row : LinkRow) : Decidable row.IsMarker :=
  inferInstanceAs (Decidable (_ ∨ _))

/-- A marker asks for nothing but its item. -/
theorem LinkRow.IsMarker.demands_met_iff {row : LinkRow} (hmarker : row.IsMarker) :
    (∀ d ∈ Catalog.linkDemands row, d.IsMet) ↔ row.item = .null ∨ row.item.IsReadable := by
  have hparent : row.parent = .null ∨ row.parent.IsReadable := hmarker.imp_right fun h => ⟨0, h⟩
  have hwhole : (row.item = .null ∨ row.item.IsReadable) →
      (Demand.whole (Catalog.fetchedForLink row)).IsMet := by
    intro hitem
    simp [Demand.IsMet, Catalog.fetchedForLink, Cell.broken?_eq_none hitem,
      Cell.broken?_eq_none hparent]
  rw [Catalog.linkDemands, List.forall_mem_cons]
  by_cases hnull : row.item = .null
  · simp [hnull, hwhole]
  · rw [if_neg hnull, List.forall_mem_cons, Demand.integerIn_met_iff]
    exact ⟨fun h => Or.inr h.2.1, fun h => ⟨hwhole h, h.resolve_left hnull, hparent⟩⟩

namespace Catalog

/-- Two catalogs with the same rows, up to the order and the number of link rows and up to markers
among them. -/
structure SameLinked (c c' : Catalog) : Prop where
  items : c'.items = c.items
  infos : c'.infos = c.infos
  namings : c'.namings = c.namings
  volumes : c'.volumes = c.volumes
  links : ∀ row ∈ c.links, row ∈ c'.links ∨ row.IsMarker
  links' : ∀ row ∈ c'.links, row ∈ c.links ∨ row.IsMarker

variable {c c' : Catalog}

theorem not_isMarker_of_parent {row : LinkRow} {p : Int} (hp : row.parent.toInteger = .ok p)
    (hne : p ≠ 0) : ¬ row.IsMarker := by
  rintro (hnull | hzero)
  · rw [hnull] at hp
    exact toInteger_null p hp
  · rw [hp, Except.ok.injEq] at hzero
    exact hne hzero

theorem SameLinked.hasLink (hsame : c.SameLinked c') : c'.HasLink = c.HasLink := by
  funext item p
  apply propext
  constructor
  · rintro ⟨row, hrow, hitem, hp, hne⟩
    exact ⟨row, (hsame.links' row hrow).resolve_right (not_isMarker_of_parent hp hne), hitem, hp, hne⟩
  · rintro ⟨row, hrow, hitem, hp, hne⟩
    exact ⟨row, (hsame.links row hrow).resolve_right (not_isMarker_of_parent hp hne), hitem, hp, hne⟩

/-- The links of both can be read once the markers can. -/
theorem SameLinked.succeeds_parentLinks (hsame : c.SameLinked c') (hlinks : Succeeds c.parentLinks) :
    Succeeds c'.parentLinks ↔
      ∀ row ∈ c'.links, row.IsMarker → row.item = .null ∨ row.item.IsReadable := by
  rw [(parentLinks_reads _).succeeds, List.forall_mem_flatMap] at hlinks ⊢
  constructor
  · intro hrows row hrow hmarker
    exact hmarker.demands_met_iff.mp (hrows row hrow)
  · intro hmarkers row hrow
    rcases hsame.links' row hrow with hrow' | hmarker
    · exact hlinks row hrow'
    · exact hmarker.demands_met_iff.mpr (hmarkers row hrow hmarker)

theorem SameLinked.joinedRows (hsame : c.SameLinked c') : c'.joinedRows = c.joinedRows := by
  rw [Catalog.joinedRows, hsame.items, hsame.infos, Catalog.joinedRows]

theorem SameLinked.namedRows (hsame : c.SameLinked c') : c'.namedRows = c.namedRows := by
  rw [Catalog.namedRows, hsame.items, hsame.namings, Catalog.namedRows]

end Catalog

end Store

namespace Index

open Store Pattern

/-! ## Patterns -/

/-- Two options that differ in their patterns only, of which each is like one of the other. -/
structure Options.SamePatterns (options options' : Options) : Prop where
  minSize : options'.minSize = options.minSize
  maxDepth : options'.maxDepth = options.maxDepth
  excludes : ∀ p ∈ options.excludes, ∃ p' ∈ options'.excludes, NamesAlike (p.getD "") (p'.getD "")
  excludes' : ∀ p' ∈ options'.excludes, ∃ p ∈ options.excludes, NamesAlike (p'.getD "") (p.getD "")

namespace Options.SamePatterns

variable {options options' : Options}

theorem symm (hsame : options.SamePatterns options') : options'.SamePatterns options where
  minSize := hsame.minSize.symm
  maxDepth := hsame.maxDepth.symm
  excludes := hsame.excludes'
  excludes' := hsame.excludes

theorem filenames (hsame : options.SamePatterns options') :
    options.exclusion.filenames ⊆ options'.exclusion.filenames := by
  intro glob hglob
  obtain ⟨p, hp, hnames⟩ := Exclusion.mem_filenames_compile.mp hglob
  obtain ⟨p', hp', halike⟩ := hsame.excludes p hp
  exact Exclusion.mem_filenames_compile.mpr ⟨p', hp', halike.file hnames⟩

theorem directories (hsame : options.SamePatterns options') :
    options.exclusion.directories ⊆ options'.exclusion.directories := by
  intro glob hglob
  obtain ⟨p, hp, hnames⟩ := Exclusion.mem_directories_compile.mp hglob
  obtain ⟨p', hp', halike⟩ := hsame.excludes p hp
  exact Exclusion.mem_directories_compile.mpr ⟨p', hp', halike.directory hnames⟩

theorem isKept (hsame : options.SamePatterns options') :
    Catalog.isKept options'.exclusion options'.minSize =
      Catalog.isKept options.exclusion options.minSize := by
  funext row
  rw [Bool.eq_iff_iff, hsame.minSize]
  exact ⟨Catalog.isKept_antitone hsame.filenames (le_refl _),
    Catalog.isKept_antitone hsame.symm.filenames (le_refl _)⟩

theorem liesOutside (hsame : options.SamePatterns options') :
    liesOutside options'.exclusion.directoryCondition =
      liesOutside options.exclusion.directoryCondition := by
  funext e
  rw [Bool.eq_iff_iff]
  exact ⟨liesOutside_antitone hsame.directories rfl,
    liesOutside_antitone hsame.symm.directories rfl⟩

theorem hasShortPatterns (hsame : options.SamePatterns options')
    (hshort : options'.exclusion.filenameCondition.HasShortPatterns) :
    options.exclusion.filenameCondition.HasShortPatterns := by
  intro p hp
  apply hshort p
  simp only [Exclusion.filenameCondition, Condition.parameters, List.map_map, List.mem_map] at hp ⊢
  obtain ⟨glob, hglob, hpattern⟩ := hp
  exact ⟨glob, hsame.filenames hglob, hpattern⟩

/-- Patterns that keep the same rows enumerate the same candidates. -/
theorem enumerate (hsame : options.SamePatterns options') (hfit : options'.PatternsFit)
    (last : Option Int) (rows : List (ItemRow × Option InfoRow)) :
    Catalog.enumerate options'.exclusion options'.minSize last rows =
      Catalog.enumerate options.exclusion options.minSize last rows := by
  have hkeeps : ∀ item info, Catalog.keeps options'.exclusion options'.minSize item info =
      Catalog.keeps options.exclusion options.minSize item info := by
    intro item info
    rw [Catalog.keeps_eq hfit.filenames _ (item, info),
      Catalog.keeps_eq (hsame.hasShortPatterns hfit.filenames) _ (item, info), hsame.isKept]
  induction rows generalizing last with
  | nil => rfl
  | cons row rows ih => simp only [Catalog.enumerate, hkeeps, ih]

theorem candidates (hsame : options.SamePatterns options') (hfit : options'.PatternsFit)
    {c : Catalog} {found : List Candidate}
    (hfound : c.candidates options.exclusion options.minSize = .ok found) :
    c.candidates options'.exclusion options'.minSize = .ok found := by
  unfold Catalog.candidates at hfound
  split at hfound
  · contradiction
  · split at hfound
    · contradiction
    · rename_i hbound
      rw [← hsame.minSize] at hbound
      rw [Catalog.candidates, if_neg (Nat.not_lt.mpr hfit.filenameDepth), if_neg hbound,
        hsame.enumerate hfit, hfound]

end Options.SamePatterns

/-! ## Links -/

section Links

variable {r : Readings} {links : Catalog.ParentLinks}
  (hparents : links.parentsOf = r.links.parentsOf)

include hparents

theorem graph_agrees : r.graph.Agrees ({ r with links } : Readings).graph where
  parents := hparents
  name? := rfl
  isVolume := rfl

theorem entries_congr (maxDepth : Int) :
    ({ r with links } : Readings).entries maxDepth = r.entries maxDepth := by
  simp only [entries_eq_mapM, (graph_agrees hparents).ancestry]
  rfl

theorem sized_congr (entries : List Entry) : sized links entries = sized r.links entries := by
  rw [sized_eq, sized_eq]
  apply List.map_congr_left
  intro e he
  by_cases hfolder : e.kind = .folder
  · have hmem : e.id ∈ (entries.filter (·.kind = .folder)).map (·.id) :=
      List.mem_map_of_mem (List.mem_filter.mpr ⟨he, by simpa using hfolder⟩)
    rw [Entry.resize_of_folder _ hfolder, Entry.resize_of_folder _ hfolder,
      Std.TreeMap.getD_eq_getD_getElem?, Std.TreeMap.getD_eq_getD_getElem?, folderSizes, folderSizes,
      FolderSize.total_congr hparents _ hmem]
  · rw [Entry.resize_of_ne_folder _ hfolder, Entry.resize_of_ne_folder _ hfolder]

end Links

/-! ## Builds -/

/-- What is built was read, its links too. -/
theorem succeeds_parentLinks_of_build {c : Catalog} {options : Options} {path : String}
    {target : Target} (hopen : openCatalog path target = .ok c)
    (hbuild : Succeeds (build path options target).result) : Succeeds c.parentLinks := by
  obtain ⟨_, -, r, hr, -⟩ := (succeeds_build_iff hopen options).mp hbuild
  exact ⟨r.links, (readingsOf_eq_ok hr).2.1⟩

section Builds

variable {options options' : Options} {c c' : Catalog} (hcatalogs : c.SameLinked c')
  (hoptions : options.SamePatterns options') (hfit : options'.PatternsFit)

include hcatalogs hoptions hfit

theorem readingsOf_congr {r : Readings}
    (hr : readingsOf c options.exclusion options.minSize = .ok r) {links : Catalog.ParentLinks}
    (hlinks : c'.parentLinks = .ok links) :
    readingsOf c' options'.exclusion options'.minSize = .ok { r with links } := by
  obtain ⟨hcandidates, -, hnames, hvolumes⟩ := readingsOf_eq_ok hr
  have hcandidates' : c'.candidates options'.exclusion options'.minSize = .ok r.candidates := by
    rw [← hoptions.candidates hfit hcandidates, Catalog.candidates, hcatalogs.joinedRows,
      Catalog.candidates]
  have hnames' : c'.itemNames = .ok r.names := by
    rw [Catalog.itemNames, hcatalogs.namedRows]
    exact hnames
  have hvolumes' : c'.volumeTable = .ok r.volumes := by
    rw [Catalog.volumeTable, hcatalogs.volumes]
    exact hvolumes
  rw [readingsOf, hcandidates', hlinks, hnames', hvolumes']
  rfl

/-- With links that can be read, the other build succeeds and has the same entries. -/
theorem build_of_parentLinks {path : String} {target target' : Target} {g : Generation}
    (hopen : openCatalog path target = .ok c) (hopen' : openCatalog path target' = .ok c')
    (hbuild : (build path options target).result = .ok g) {links : Catalog.ParentLinks}
    (hlinks : c'.parentLinks = .ok links) :
    Succeeds (build path options' target').result ∧
      ∀ g', (build path options' target').result = .ok g' → g'.entries = g.entries := by
  obtain ⟨_, -, r, hr, hassemble⟩ := (succeeds_build_iff hopen options).mp ⟨g, hbuild⟩
  obtain ⟨resolved, kept, hresolved, hsizes, hkept, hstored, hstatistics⟩ :=
    succeeds_assemble_iff.mp hassemble
  have hparents := Catalog.parentsOf_congr (readingsOf_eq_ok hr).2.1 hlinks hcatalogs.hasLink
  have hr' := readingsOf_congr hcatalogs hoptions hfit hr hlinks
  have hresolved' : ({ r with links } : Readings).entries options'.maxDepth = .ok resolved := by
    rw [entries_congr hparents, hoptions.maxDepth, hresolved]
  have hkept' : dropDirectories options'.exclusion resolved = .ok kept := by
    rw [dropDirectories_of_fit hfit, hoptions.liesOutside, dropDirectories_eq_ok hkept]
  have hsized : sized links kept = sized r.links kept := sized_congr hparents kept
  obtain ⟨hsucceeds, hentries'⟩ := build_of_readings hopen' hr' hresolved' hkept' hsizes
  have hentries := (build_of_readings hopen hr hresolved hkept hsizes).2 g hbuild
  rw [hsized] at hsucceeds hentries'
  exact ⟨hsucceeds.mpr ⟨hstored, hstatistics⟩,
    fun g' hg' => (hentries' g' hg').trans hentries.symm⟩

/-- Redundant link rows and patterns change nothing of what is built, as long as the items of the
markers among the rows can be read. -/
theorem build_redundant {path : String} {target target' : Target} {g : Generation}
    (hopen : openCatalog path target = .ok c) (hopen' : openCatalog path target' = .ok c')
    (hbuild : (build path options target).result = .ok g) :
    (Succeeds (build path options' target').result ↔
      ∀ row ∈ c'.links, row.IsMarker → row.item = .null ∨ row.item.IsReadable) ∧
    ∀ g', (build path options' target').result = .ok g' →
      g'.entries = g.entries ∧ g'.statistics = g.statistics := by
  have hmarkers :=
    hcatalogs.succeeds_parentLinks (succeeds_parentLinks_of_build hopen ⟨g, hbuild⟩)
  constructor
  · constructor
    · exact fun hsucceeds => hmarkers.mp (succeeds_parentLinks_of_build hopen' hsucceeds)
    · intro hitems
      obtain ⟨links, hlinks⟩ := hmarkers.mpr hitems
      exact (build_of_parentLinks hcatalogs hoptions hfit hopen hopen' hbuild hlinks).1
  · intro g' hg'
    obtain ⟨links, hlinks⟩ := succeeds_parentLinks_of_build hopen' ⟨g', hg'⟩
    have hentries :=
      (build_of_parentLinks hcatalogs hoptions hfit hopen hopen' hbuild hlinks).2 g' hg'
    have hstatistics := build_statistics hg'
    rw [hentries, build_statistics hbuild] at hstatistics
    exact ⟨hentries, (Except.ok.inj hstatistics).symm⟩

end Builds

/-- The link rows of the shelf the other way round and once more, and two markers. -/
def untidyShelf : Catalog :=
  { shelf with
    links := shelf.links.reverse ++ shelf.links ++ [⟨.int 3, .null⟩, ⟨.int 1, .int 0⟩] }

theorem build_redundant_untidyShelf :
    shelf.SameLinked untidyShelf ∧
    Options.SamePatterns ⟨["*.tmp", "cache/"], 0, 100⟩ ⟨["cache/*", "*.tmp", "*.tmp"], 0, 100⟩ ∧
    Options.PatternsFit ⟨["cache/*", "*.tmp", "*.tmp"], 0, 100⟩ ∧
    ∃ g g', (build "c" ⟨["*.tmp", "cache/"], 0, 100⟩ (.file ⟨1, 1, .database shelf⟩)).result =
        .ok g ∧
      (build "c" ⟨["cache/*", "*.tmp", "*.tmp"], 0, 100⟩
        (.file ⟨2, 2, .database untidyShelf⟩)).result = .ok g' ∧
      g.entries.map (fun e => (e.name, e.size)) =
        ([("docs", some 11), ("a.txt", some 10), ("c.txt", some 1)] :
          List (TextCell × Option Int)) ∧
      g'.entries = g.entries ∧ g'.statistics = g.statistics := by
  have hcatalogs : shelf.SameLinked untidyShelf :=
    ⟨rfl, rfl, rfl, rfl, by decide +kernel, by decide +kernel⟩
  have hcache : NamesAlike "cache/" "cache/*" := by
    have hslash : "cache/" = "cache" ++ "/" := by decide
    have hstar : "cache/*" = "cache" ++ "/*" := by decide
    rw [hslash, hstar]
    exact .slash_star "cache"
  have hoptions : Options.SamePatterns ⟨["*.tmp", "cache/"], 0, 100⟩
      ⟨["cache/*", "*.tmp", "*.tmp"], 0, 100⟩ := by
    refine ⟨rfl, rfl, ?_, ?_⟩
    · simp only [List.forall_mem_cons, List.not_mem_nil, false_implies, implies_true, and_true]
      exact ⟨⟨"*.tmp", by simp, Or.inl rfl⟩, "cache/*", by simp, hcache⟩
    · simp only [List.forall_mem_cons, List.not_mem_nil, false_implies, implies_true, and_true]
      exact ⟨⟨"cache/", by simp, hcache.symm⟩, ⟨"*.tmp", by simp, Or.inl rfl⟩,
        "*.tmp", by simp, Or.inl rfl⟩
  have hfit : Options.PatternsFit ⟨["cache/*", "*.tmp", "*.tmp"], 0, 100⟩ :=
    ⟨by decide +kernel, by decide +kernel, by decide +kernel, by decide +kernel⟩
  have hsome : (build "c" ⟨["*.tmp", "cache/"], 0, 100⟩
      (.file ⟨1, 1, .database shelf⟩)).result.map
        (fun g => g.entries.map fun e => (e.name, e.size)) =
          .ok [("docs", some 11), ("a.txt", some 10), ("c.txt", some 1)] := by
    decide +kernel
  obtain ⟨g, hg, hnames⟩ := map_eq_ok_iff.mp hsome
  have hopen : openCatalog "c" (.file ⟨1, 1, .database shelf⟩) = .ok shelf := by decide +kernel
  have hopen' : openCatalog "c" (.file ⟨2, 2, .database untidyShelf⟩) = .ok untidyShelf := by
    decide +kernel
  obtain ⟨hsucceeds, hsame⟩ := build_redundant hcatalogs hoptions hfit hopen hopen' hg
  have hnumbers : ∀ row ∈ untidyShelf.links, ∃ n, row.item = .int n := by
    simp [untidyShelf, shelf]
  have hmarkers : ∀ row ∈ untidyShelf.links, row.IsMarker →
      row.item = .null ∨ row.item.IsReadable := by
    intro row hrow _
    obtain ⟨n, hn⟩ := hnumbers row hrow
    rw [hn]
    exact Or.inr ⟨n, rfl⟩
  obtain ⟨g', hg'⟩ := hsucceeds.mpr hmarkers
  exact ⟨hcatalogs, hoptions, hfit, g, g', hg, hg', hnames, hsame g' hg'⟩

/-- A marker whose item cannot be read fails the build. -/
theorem build_redundant_unreadable :
    (⟨.text "x", .int 0⟩ : LinkRow).IsMarker ∧
    shelf.SameLinked { shelf with links := shelf.links ++ [⟨.text "x", .int 0⟩] } ∧
    ∃ g, (build "c" ⟨[], 0, 100⟩ (.file ⟨1, 1, .database shelf⟩)).result = .ok g ∧
      ¬ ∃ g', (build "c" ⟨[], 0, 100⟩ (.file ⟨1, 1,
        .database { shelf with links := shelf.links ++ [⟨.text "x", .int 0⟩] }⟩)).result = .ok g' ∧
          g'.entries = g.entries := by
  have hbuild : (build "c" ⟨[], 0, 100⟩ (.file ⟨1, 1, .database shelf⟩)).result.map
      (fun g => g.entries.length) = .ok 6 := by
    decide +kernel
  have hfails : (build "c" ⟨[], 0, 100⟩ (.file ⟨1, 1,
      .database { shelf with links := shelf.links ++ [⟨.text "x", .int 0⟩] }⟩)).result =
        .error (.number (.notAnInteger "x")) := by
    decide +kernel
  obtain ⟨g, hg, -⟩ := map_eq_ok_iff.mp hbuild
  refine ⟨by decide +kernel, ⟨rfl, rfl, rfl, rfl, by decide +kernel, by decide +kernel⟩, g, hg, ?_⟩
  rintro ⟨g', hg', -⟩
  rw [hfails] at hg'
  cases hg'

end Index

end DiskCatalog
