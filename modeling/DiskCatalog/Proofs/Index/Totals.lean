import DiskCatalog.Proofs.Index.Naming

/-!
# Entries and totals

A generation adds up.  Its entries have different numbers; each has the kind that the catalog tells
of its item, and it has no path exactly when it is a volume, as the chain of any other item ends in
its name.  The statistics count these entries, and the candidates are the entries together with
those that were left out with their directories.
-/

namespace DiskCatalog.Store.Catalog

/-! ## What a catalog tells of an item -/

def HasVolumeRow (c : Catalog) (id : Int) : Prop :=
  ∃ row ∈ c.volumes, wanted row.item = .ok id

/-- The kind that is told of an item: a row of the volumes makes it a volume, whatever its type. -/
inductive Tells (c : Catalog) (item : ItemRow) : ItemKind → Prop
  | volume : item.kind?.isSome → c.HasVolumeRow item.id → c.Tells item .volume
  | own {kind : ItemKind} : item.kind? = some kind → ¬ c.HasVolumeRow item.id → c.Tells item kind

theorem mem_addVolume {volumes next : Volumes} {row : VolumeRow}
    (hadd : addVolume volumes row = .ok next) (id : Int) :
    id ∈ next ↔ id ∈ volumes ∨ wanted row.item = .ok id := by
  obtain ⟨-, -, hadd⟩ := bind_eq_ok_iff.mp hadd
  obtain ⟨item, hitem, hinserted⟩ := bind_eq_ok_iff.mp hadd
  obtain rfl := Except.ok.inj hinserted
  rw [Std.TreeMap.mem_insertIfNew, Std.LawfulEqCmp.compare_eq_iff_eq, hitem, Except.ok.injEq,
    or_comm]

theorem mem_volumeTable_iff {c : Catalog} {volumes : Volumes}
    (hvolumes : c.volumeTable = .ok volumes) (id : Int) : id ∈ volumes ↔ c.HasVolumeRow id := by
  have hmem : id ∈ volumes ↔ id ∈ (∅ : Volumes) ∨ ∃ row ∈ c.volumes, wanted row.item = .ok id :=
    foldlM_iff hvolumes fun _ _ _ hadd => mem_addVolume hadd id
  rw [hmem, HasVolumeRow, or_iff_right Std.TreeMap.not_mem_emptyc]

theorem kind?_eq_volume_iff {item : ItemRow} {kind : ItemKind} {type : Int}
    (hkind : item.kind? = some kind) (htype : wanted item.itype = .ok type) :
    type = ItemKind.volume.number ↔ kind = .volume := by
  unfold ItemRow.kind? at hkind
  split at hkind
  · rename_i n hitype
    rw [hitype] at htype
    obtain rfl : n = type := Except.ok.inj htype
    unfold ItemKind.ofNumber? at hkind
    split_ifs at hkind with hfile hfolder hvolume <;> obtain rfl := Option.some.inj hkind
    · simp [hfile, ItemKind.number]
    · simp [hfolder, ItemKind.number]
    · simp [hvolume, ItemKind.number]
  · contradiction

end DiskCatalog.Store.Catalog

namespace DiskCatalog.Index

open Store Pattern

/-! ## Chains of volumes and of other items -/

namespace ItemGraph

variable {g : ItemGraph} {maxDepth item : Int}

theorem ancestry_of_volume (hvolume : g.isVolume item) :
    g.ancestry maxDepth item = .ofVolume item := by
  simp [ancestry, resolve, resolveWithin, hvolume]

/-- The chain of an item that is no volume ends in its name, and the volume above it is one. -/
theorem ancestry_of_inside (maxDepth : Int) (hinside : g.isVolume item = false) :
    (g.ancestry maxDepth item).segments ≠ [] ∧
      ∀ v ∈ (g.ancestry maxDepth item).volume, g.isVolume v := by
  have hclosed : g.IsClosed (boundOf maxDepth) fun i a => g.isVolume i = false →
      a.segments ≠ [] ∧ ∀ v ∈ a.volume, g.isVolume v := by
    constructor
    case volume =>
      intro i hvolume hinside
      simp [hvolume] at hinside
    case alone =>
      intro i _
      simp [Ancestry.alone]
    case below =>
      intro i p _ _ hvolume _
      simp [hvolume]
    case extend =>
      intro i p a hlink habove _
      obtain ⟨-, hvolume⟩ := habove hlink.inside
      unfold Ancestry.extend
      simp only
      split
      · -- of the names that are kept the last is that of the item
        simp
      · exact ⟨by simp, hvolume⟩
  exact hclosed.ancestry item hinside

theorem fullPath_ancestry_eq_none_iff {full : Option String}
    (hfull : (g.ancestry maxDepth item).fullPath = .ok full) :
    full = none ↔ g.isVolume item := by
  rw [(Ancestry.fullPath_eq_ok_iff.mp hfull).2]
  cases hitem : g.isVolume item with
  | true => simp [ancestry_of_volume hitem, Ancestry.ofVolume]
  | false =>
      obtain ⟨hsegments, -⟩ := ancestry_of_inside maxDepth hitem
      simp [hsegments]

/-- The volume of an item is the item itself exactly when it is a volume. -/
theorem volume_ancestry_eq_self_iff :
    (g.ancestry maxDepth item).volume = some item ↔ g.isVolume item := by
  cases hitem : g.isVolume item with
  | true => simp [ancestry_of_volume hitem, Ancestry.ofVolume]
  | false =>
      obtain ⟨-, hvolume⟩ := ancestry_of_inside maxDepth hitem
      simp only [Bool.false_eq_true, iff_false]
      intro hself
      simp [hvolume item hself] at hitem

end ItemGraph

/-! ## Entries -/

/-- What every entry of a generation is: an entry of the kind that is told of its item, which has no
path exactly if it is a volume.  Volumes have no sizes and folders have one. -/
structure Entry.IsSound (c : Catalog) (e : Entry) : Prop where
  kind : e.kind = .file ∨ e.kind = .folder ∨ e.kind = .volume
  told : ∃ item ∈ c.items, item.id = e.id ∧ c.Tells item e.kind
  path : e.kind = .volume ↔ e.fullPath = none
  unsized : e.fullPath = none → e.size = none
  sized : e.kind = .folder → e.size.isSome

section Entries

variable {c : Catalog} {exclusion : Exclusion} {minSize maxDepth : Int} {r : Readings}

/-- An item of a kind that is indexed is taken for a volume where a volume is told of it. -/
theorem isVolume_graph_iff (hc : c.IsKeyed) (hr : readingsOf c exclusion minSize = .ok r)
    {item : ItemRow} (hitem : item ∈ c.items) {kind : ItemKind} (hkind : item.kind? = some kind) :
    r.graph.isVolume item.id ↔ c.HasVolumeRow item.id ∨ kind = .volume := by
  obtain ⟨-, -, hnames, hvolumes⟩ := readingsOf_eq_ok hr
  obtain ⟨named, hnamed, -⟩ := Option.map_eq_some_iff.mp (hc.name_of_itemNames hnames hitem)
  obtain ⟨row, hrow, hid, -, htype⟩ := Catalog.exists_row_of_itemNames hnames hnamed
  obtain ⟨other, hother, hjoined⟩ := List.mem_flatMap.mp hrow
  obtain ⟨info, -, rfl⟩ := List.mem_map.mp hjoined
  obtain rfl := hc.eq_of_id_eq hother hitem hid
  have hgraph : r.graph.isVolume other.id =
      (r.volumes.contains other.id || named.type == ItemKind.volume.number) := by
    simp [Readings.graph, Readings.isVolume, hnamed]
  rw [hgraph, Bool.or_eq_true, beq_iff_eq, Std.TreeMap.contains_iff_mem,
    Catalog.mem_volumeTable_iff hvolumes, Catalog.kind?_eq_volume_iff hkind htype]

theorem entryOf_kind {candidate : Candidate} {ancestry : Ancestry} {e : Entry}
    (hentry : r.entryOf candidate ancestry = .ok e) :
    e.kind = (if ancestry.volume = some candidate.id then .volume else candidate.kind) ∧
      (e.kind ≠ .file → e.size = none) := by
  obtain ⟨_, -, hentry⟩ := bind_eq_ok_iff.mp hentry
  obtain ⟨_, -, hentry⟩ := bind_eq_ok_iff.mp hentry
  obtain ⟨_, -, hentry⟩ := bind_eq_ok_iff.mp hentry
  obtain rfl := Except.ok.inj hentry
  exact ⟨rfl, fun hkind => if_neg hkind⟩

/-- An entry that is resolved has the kind that is told of its item, and no path if that is a
volume. -/
theorem told_of_mem_resolved (hc : c.IsKeyed) (hr : readingsOf c exclusion minSize = .ok r)
    {resolved : List Entry} (hresolved : r.entries maxDepth = .ok resolved) {e : Entry}
    (he : e ∈ resolved) :
    (∃ item ∈ c.items, item.id = e.id ∧ c.Tells item e.kind) ∧
      (e.kind = .volume ↔ e.fullPath = none) := by
  obtain ⟨item, hitem, info, candidate, hinfo, hcandidate, hentry⟩ :=
    exists_row_of_mem_resolved hc hr hresolved he
  obtain ⟨kind, hkind⟩ := Catalog.isKept_kind? (Catalog.isKept_of_firstKept hinfo)
  obtain ⟨hcandidateId, -, hcandidateKind⟩ := Catalog.candidateOfRow_facts hcandidate
  obtain ⟨hid, -, hpath⟩ := entryOf_facts hentry
  have hisVolume := isVolume_graph_iff hc hr hitem hkind
  have hself : (r.graph.ancestry maxDepth item.id).volume = some item.id ↔
      r.graph.isVolume item.id := ItemGraph.volume_ancestry_eq_self_iff
  have hekind : e.kind = if r.graph.isVolume item.id then .volume else kind := by
    rw [(entryOf_kind hentry).1, hcandidateId, hcandidateKind]
    simp [hself, hkind]
  rw [ItemGraph.fullPath_ancestry_eq_none_iff hpath]
  refine ⟨⟨item, hitem, by rw [hid, hcandidateId], ?_⟩, ?_⟩
  · rw [hekind]
    by_cases hrow : c.HasVolumeRow item.id
    · rw [if_pos (hisVolume.mpr (Or.inl hrow))]
      exact .volume (by simp [hkind]) hrow
    · split_ifs with hvolume
      · obtain rfl := (hisVolume.mp hvolume).resolve_left hrow
        exact .own hkind hrow
      · exact .own hkind hrow
  · rw [hekind]
    split_ifs with hvolume
    · simp [hvolume]
    · refine iff_of_false ?_ hvolume
      rintro rfl
      exact hvolume (hisVolume.mpr (Or.inr rfl))

theorem unsized_of_mem_resolved {resolved : List Entry}
    (hresolved : r.entries maxDepth = .ok resolved) {e : Entry} (he : e ∈ resolved)
    (hkind : e.kind ≠ .file) : e.size = none := by
  rw [entries_eq_mapM] at hresolved
  obtain ⟨candidate, -, hentry⟩ := exists_of_mem_mapM hresolved he
  exact (entryOf_kind hentry).2 hkind

theorem Generation.MadeFrom.isSound {options : Options} {resolved kept : List Entry}
    {g : Generation} (hg : g.MadeFrom options r resolved kept) (hc : c.IsKeyed)
    (hr : readingsOf c exclusion minSize = .ok r) : ∀ e ∈ g.entries, e.IsSound c := by
  intro e he
  rw [hg.entries, sized_eq] at he
  obtain ⟨k, hk, rfl⟩ := List.mem_map.mp he
  have hresolved := (dropDirectories_sublist hg.keeps).subset hk
  obtain ⟨htold, hpath⟩ := told_of_mem_resolved hc hr hg.resolves hresolved
  constructor
  case kind => cases hkind : (k.resize _).kind <;> simp
  case told => simpa using htold
  case path => simpa using hpath
  case unsized =>
    intro hnone
    rw [Entry.resize_fullPath] at hnone
    have hvolume := hpath.mpr hnone
    rw [Entry.resize_of_ne_folder _ (by simp [hvolume])]
    exact unsized_of_mem_resolved hg.resolves hresolved (by simp [hvolume])
  case sized =>
    intro hfolder
    rw [Entry.resize_kind] at hfolder
    simp [Entry.resize_of_folder _ hfolder]

end Entries

/-! ## Statistics -/

namespace Statistics

theorem storedSum_eq_ok {acc total : Int} {ns : List Int} (hsum : storedSum acc ns = .ok total) :
    total = acc + ns.sum := by
  induction ns generalizing acc with
  | nil =>
      obtain rfl := Except.ok.inj hsum
      simp
  | cons n ns ih =>
      rw [storedSum] at hsum
      split at hsum
      · rw [ih hsum, List.sum_cons, add_assoc]
      · contradiction

/-- A file whose size is not known counts as empty. -/
theorem sum_countedSize (entries : List Entry) :
    (entries.map countedSize).sum =
      ((entries.filter (·.kind = .file)).filterMap (·.size)).sum := by
  induction entries with
  | nil => rfl
  | cons e entries ih =>
      rw [List.map_cons, List.sum_cons, ih, countedSize]
      by_cases hfile : e.kind = .file
      · cases hsize : e.size <;> simp [hfile, hsize]
      · simp [hfile]

/-- Every entry is counted among those of its kind, and nowhere else. -/
theorem countKind_add (entries : List Entry) :
    countKind .file entries + countKind .folder entries + countKind .volume entries =
      entries.length := by
  induction entries with
  | nil => rfl
  | cons e entries ih =>
      simp only [countKind] at ih ⊢
      cases hkind : e.kind <;> simp [hkind] <;> omega

/-- The statistics of entries, read off them. -/
structure Counts (s : Statistics) (entries : List Entry) : Prop where
  items : s.items = entries.length
  files : s.files = countKind .file entries
  folders : s.folders = countKind .folder entries
  volumes : s.volumes = countKind .volume entries
  sizeBytes : s.sizeBytes = ((entries.filter (·.kind = .file)).filterMap (·.size)).sum
  kinds : s.files + s.folders + s.volumes = s.items

theorem counts_of_ofEntries {s : Statistics} {entries : List Entry}
    (hs : ofEntries entries = .ok s) : s.Counts entries := by
  obtain ⟨sizeBytes, hsizes, hs⟩ := bind_eq_ok_iff.mp hs
  obtain rfl := Except.ok.inj hs
  constructor
  case sizeBytes => rw [← sum_countedSize, storedSum_eq_ok hsizes, zero_add]
  case kinds => exact countKind_add entries
  all_goals rfl

end Statistics

/-! ## Generations -/

/-- What directories leave out is counted against the entries that were resolved. -/
theorem assemble_candidates {path : String} {signature : Signature} {exclusion : Exclusion}
    {maxDepth : Int} {r : Readings} {g : Generation}
    (hassemble : assemble path signature exclusion maxDepth r = .ok g) :
    g.report.candidates = g.entries.length + g.report.excludedByDirectory := by
  simp only [assemble, bind_eq_ok_iff, storeEntries_eq_ok_iff, withFolderSizes_eq,
    Except.ok.injEq] at hassemble
  obtain ⟨_, hresolved, resolved, ⟨-, rfl⟩, kept, hkept, entries, ⟨-, rfl⟩, statistics, -, rfl⟩ :=
    hassemble
  have hlength : resolved.length = r.candidates.length := by
    simpa using congrArg List.length (entries_ids hresolved)
  have hentries : (sized r.links kept).length = kept.length := by
    rw [sized_eq, List.length_map]
  have hfewer : kept.length ≤ resolved.length := (dropDirectories_sublist hkept).length_le
  simp only
  omega

/-- The entries of a generation, its statistics and its report agree. -/
structure Generation.AddsUp (c : Catalog) (g : Generation) : Prop where
  distinct : (g.entries.map (·.id)).Nodup
  sound : ∀ e ∈ g.entries, e.IsSound c
  counts : g.statistics.Counts g.entries
  candidates : g.report.candidates = g.statistics.items + g.report.excludedByDirectory

/-- Every generation that is built adds up, whatever is excluded and however deep paths may be. -/
theorem build_addsUp {path : String} {options : Options} {target : Target} {c : Catalog}
    {g : Generation} (hopen : openCatalog path target = .ok c) (hc : c.IsKeyed)
    (hbuild : (build path options target).result = .ok g) : g.AddsUp c := by
  obtain ⟨r, resolved, kept, hr, hmade⟩ := build_made hopen hbuild
  obtain ⟨signature, _, -, -, hassemble⟩ := buildSeen_eq_ok hbuild
  have hcounts := Statistics.counts_of_ofEntries (build_statistics hbuild)
  constructor
  case distinct =>
    have hascend := hmade.ascend (hc.candidates_ascend (readingsOf_eq_ok hr).1)
    exact List.pairwise_map.mpr (hascend.imp fun hlt => hlt.ne)
  case sound => exact hmade.isSound hc hr
  case counts => exact hcounts
  case candidates =>
    rw [hcounts.items]
    exact assemble_candidates hassemble

/-- A volume by its type with two folders, one of them a volume by its row, a file that is told of
twice, one whose size is not known, and one in a folder that may be excluded. -/
def cabinet : Catalog where
  tables := (Catalog.ofRows [] [] [] []).tables
  items :=
    [⟨1, .int 172, some "disk"⟩, ⟨2, .int 200, some "d"⟩, ⟨3, .int 200, some "part"⟩,
     ⟨4, .int 1, some "a.txt"⟩, ⟨5, .int 1, some "b.txt"⟩, ⟨6, .int 200, some "cache"⟩,
     ⟨7, .int 1, some "c.txt"⟩]
  infos :=
    [⟨.int 4, none, none, none, .int 5⟩, ⟨.int 4, none, none, none, .int 6⟩,
     ⟨.int 3, none, none, none, .int 8⟩, ⟨.int 7, none, none, none, .int 9⟩]
  links :=
    [⟨.int 2, .int 1⟩, ⟨.int 3, .int 1⟩, ⟨.int 4, .int 2⟩, ⟨.int 5, .int 3⟩, ⟨.int 6, .int 2⟩,
     ⟨.int 7, .int 6⟩]
  volumes := [⟨.int 3, some "PART", none⟩]

theorem build_addsUp_cabinet :
    ∃ g, (build "c" ⟨["cache/"], 0, 100⟩ (.file ⟨1, 1, .database cabinet⟩)).result = .ok g ∧
      g.AddsUp cabinet ∧ g.statistics = ⟨5, 2, 1, 2, 5⟩ ∧ g.report = ⟨7, 2, []⟩ := by
  have hrun : (build "c" ⟨["cache/"], 0, 100⟩ (.file ⟨1, 1, .database cabinet⟩)).result.map
      (fun g => (g.statistics, g.report)) = .ok (⟨5, 2, 1, 2, 5⟩, ⟨7, 2, []⟩) := by
    decide +kernel
  obtain ⟨g, hbuild, hcounts⟩ := map_eq_ok_iff.mp hrun
  obtain ⟨hstatistics, hreport⟩ := Prod.mk.inj hcounts
  exact ⟨g, hbuild, build_addsUp (by decide +kernel) (by decide +kernel) hbuild, hstatistics,
    hreport⟩

end DiskCatalog.Index
