import DiskCatalog.Index.Build
import DiskCatalog.Proofs.Index.Resolution
import DiskCatalog.Proofs.Store.Keys
import DiskCatalog.Proofs.Store.Readability

/-!
# The contract of a build

A build promises to make a complete index or to fail because the catalog is unavailable or because
the index cannot be built.  It keeps this for a catalog that is `Convertible`: up to the first
broken text the wanted integers can be read, the dates stay inside the calendar, paths are made of
texts, and sizes and sums of sizes fit a stored integer.  Of any other catalog it fails by passing
on the failed conversion of a value.
-/

namespace DiskCatalog

namespace Index

open Store Pattern

/-! ## A catalog that stays as it is -/

/-- An open catalog that stays as it is shows all its tables. -/
theorem seenThrough_still {path : String} {target : Target} {c : Catalog}
    (hopen : openCatalog path target = .ok c) (last : Catalog) (tables : List String) :
    seenThrough last tables target = .ok c := by
  obtain ⟨modified, size, rfl, hsize, hmissing⟩ := openCatalog_eq_ok_iff.mp hopen
  have hall : tables.filter c.missingTables.contains = [] :=
    List.filter_eq_nil_iff.mpr (by simp [hmissing])
  simp [seenThrough, hsize, hall]

def readingsOf (c : Catalog) (exclusion : Exclusion) (minSize : Int) : Except Failure Readings := do
  let candidates ← c.candidates exclusion minSize
  let links ← c.parentLinks
  let names ← c.itemNames
  let volumes ← c.volumeTable
  .ok { candidates, links, names, volumes }

theorem readings_still (path : String) (exclusion : Exclusion) (minSize : Int) (target : Target) :
    Readings.of path exclusion minSize (.still target) =
      openCatalog path target >>= fun c => readingsOf c exclusion minSize := by
  cases hopen : openCatalog path target with
  | error f => simp [Readings.of, Sightings.still, hopen, bind, Except.bind]
  | ok c => simp [Readings.of, Sightings.still, hopen, seenThrough_still hopen, readingsOf]

def HasDates (c : Candidate) : Prop :=
  Succeeds (Calendar.normalDate c.changed) ∧ Succeeds (Calendar.normalDate c.created)

/-- A chain of which all names are texts. -/
def Ancestry.IsJoinable (a : Ancestry) : Prop :=
  ∀ segment ∈ a.segments, segment.isText

theorem Ancestry.fullPath_eq_ok_iff {a : Ancestry} {full : Option String} :
    a.fullPath = .ok full ↔ a.IsJoinable ∧
      full = if a.segments.isEmpty then none
        else some ("/".intercalate (a.segments.map (·.shown))) := by
  unfold fullPath
  split
  · rename_i place hplace
    obtain ⟨hlt, hbytes, -⟩ := List.findIdx?_eq_some_iff_getElem.mp hplace
    have hnot : ¬ a.IsJoinable := fun hjoinable => by
      simp [hjoinable _ (List.getElem_mem hlt)] at hbytes
    simp [hnot]
  · rename_i hnone
    have hjoinable : a.IsJoinable := fun segment hsegment => by
      simpa using List.findIdx?_eq_none_iff.mp hnone segment hsegment
    rw [Except.ok.injEq, and_iff_right hjoinable, eq_comm]

theorem Ancestry.succeeds_fullPath (a : Ancestry) : Succeeds a.fullPath ↔ a.IsJoinable := by
  simp only [Succeeds, fullPath_eq_ok_iff, exists_and_left, exists_eq, and_true]

theorem succeeds_entryOf (r : Readings) (c : Candidate) (ancestry : Ancestry) :
    Succeeds (r.entryOf c ancestry) ↔ HasDates c ∧ ancestry.IsJoinable := by
  rw [← ancestry.succeeds_fullPath, HasDates, and_assoc]
  simp only [Readings.entryOf, succeeds_bind_iff, succeeds_ok, and_true]
  constructor
  · rintro ⟨modified, hmodified, created, hcreated, full, hfull⟩
    exact ⟨⟨modified, hmodified⟩, ⟨created, hcreated⟩, full, hfull⟩
  · rintro ⟨⟨modified, hmodified⟩, ⟨created, hcreated⟩, full, hfull⟩
    exact ⟨modified, hmodified, created, hcreated, full, hfull⟩

theorem entryOf_facts {r : Readings} {candidate : Candidate} {ancestry : Ancestry} {e : Entry}
    (hentry : r.entryOf candidate ancestry = .ok e) :
    e.id = candidate.id ∧ e.name = candidate.displayName ∧ ancestry.fullPath = .ok e.fullPath := by
  obtain ⟨_, -, hentry⟩ := bind_eq_ok_iff.mp hentry
  obtain ⟨_, -, hentry⟩ := bind_eq_ok_iff.mp hentry
  obtain ⟨full, hfull, hentry⟩ := bind_eq_ok_iff.mp hentry
  obtain rfl := Except.ok.inj hentry
  exact ⟨rfl, rfl, hfull⟩

/-- The entries are made of the candidates one by one. -/
theorem entries_eq_mapM (r : Readings) (maxDepth : Int) :
    r.entries maxDepth =
      r.candidates.mapM fun candidate =>
        r.entryOf candidate (r.graph.ancestry maxDepth candidate.id) := by
  have hzip : ∀ candidates : List Candidate,
      candidates.zip (candidates.map fun c => r.graph.ancestry maxDepth c.id) =
        candidates.map fun c => (c, r.graph.ancestry maxDepth c.id) := by
    intro candidates
    induction candidates with
    | nil => rfl
    | cons c candidates ih => rw [List.map_cons, List.zip_cons_cons, ih, List.map_cons]
  rw [Readings.entries, ItemGraph.resolveAll_eq, List.map_map]
  simp only [Function.comp_def]
  rw [hzip, List.mapM_map]
  rfl

theorem succeeds_entries (r : Readings) (maxDepth : Int) :
    Succeeds (r.entries maxDepth) ↔
      ∀ c ∈ r.candidates, HasDates c ∧ (r.graph.ancestry maxDepth c.id).IsJoinable := by
  simp only [entries_eq_mapM, succeeds_mapM_iff, succeeds_entryOf]

theorem entries_ids {r : Readings} {maxDepth : Int} {resolved : List Entry}
    (hresolved : r.entries maxDepth = .ok resolved) :
    resolved.map (·.id) = r.candidates.map (·.id) := by
  rw [entries_eq_mapM] at hresolved
  exact map_eq_of_mapM_eq_ok (fun _ _ hentry => (entryOf_facts hentry).1) hresolved

/-! ## Assembly -/

def liesOutside (condition : Condition) (e : Entry) : Bool :=
  !(e.fullPath.isSome && condition.holds e.fullPath)

def sized (links : Catalog.ParentLinks) (entries : List Entry) : List Entry :=
  entries.map fun e =>
    if e.kind = .folder then { e with size := some ((folderSizes links entries).getD e.id 0) } else e

theorem withFolderSizes_eq (links : Catalog.ParentLinks) (entries : List Entry) :
    withFolderSizes links entries = storeEntries (sized links entries) :=
  rfl

theorem storeEntries_eq_ok_iff {entries stored : List Entry} :
    storeEntries entries = .ok stored ↔ (∀ e ∈ entries, e.size.all isStorable) ∧ stored = entries := by
  rw [storeEntries, ← List.all_eq_true (p := fun e : Entry => e.size.all isStorable)]
  cases entries.all fun e => e.size.all isStorable with
  | true => simpa using eq_comm
  | false => simp

theorem outside_eq {condition : Condition} (hshort : condition.HasShortPatterns)
    (entries : List Entry) :
    outside condition entries = .ok (entries.filter (liesOutside condition)) := by
  induction entries with
  | nil => rfl
  | cons e entries ih =>
      cases hpath : e.fullPath with
      | none => simp [outside, hpath, ih, liesOutside]
      | some path =>
          cases hholds : condition.holds (some path) <;>
            simp [outside, hpath, Condition.check_eq hshort, hholds, ih, liesOutside]

namespace Options

def exclusion (options : Options) : Exclusion :=
  .compile options.excludes

structure WithinLimits (options : Options) : Prop where
  enumeration : Catalog.EnumerationWithinLimits options.exclusion options.minSize
  directories : options.exclusion.directoryCondition.HasShortPatterns
  depth : directoryDepth options.exclusion ≤ Pattern.maxDepth

def finish (options : Options) (links : Catalog.ParentLinks) (resolved : List Entry) :
    List Entry :=
  sized links (resolved.filter (liesOutside options.exclusion.directoryCondition))

end Options

theorem dropDirectories_eq {options : Options} (hlimits : options.WithinLimits)
    (entries : List Entry) :
    dropDirectories options.exclusion entries =
      .ok (entries.filter (liesOutside options.exclusion.directoryCondition)) := by
  by_cases hempty : options.exclusion.directories.isEmpty
  · have hall : ∀ e ∈ entries, liesOutside options.exclusion.directoryCondition e := by
      simp [liesOutside, Exclusion.directoryCondition, List.isEmpty_iff.mp hempty, Condition.holds]
    rw [dropDirectories, if_pos hempty, List.filter_eq_self.mpr hall]
  · have hdepth : ¬ Pattern.maxDepth < directoryDepth options.exclusion := by
      have := hlimits.depth
      omega
    rw [dropDirectories, if_neg hempty, if_neg hdepth, outside_eq hlimits.directories]
    rfl

/-- A complete index of what was read: each candidate has become an entry, and all of them are
there that do not lie in an excluded directory. -/
structure Complete (options : Options) (r : Readings) (resolved : List Entry) (g : Generation) :
    Prop where
  made : r.entries options.maxDepth = .ok resolved
  ids : resolved.map (·.id) = r.candidates.map (·.id)
  entries : g.entries = options.finish r.links resolved
  statistics : Statistics.ofEntries g.entries = .ok g.statistics

def leaving (path : String) : Failure → Failure
  | .query fault => .indexBuild path fault
  | f => f

theorem buildSeen_result_eq (path : String) (options : Options) (s : Sightings) :
    (buildSeen path options s).result =
      readSignature path s.signature >>= fun signature =>
        (Readings.of path options.exclusion options.minSize s >>=
          assemble path signature options.exclusion options.maxDepth).mapError (leaving path) := by
  cases hread : readSignature path s.signature with
  | error f => simp [buildSeen, hread, bind, Except.bind]
  | ok signature =>
      rw [ok_bind]
      change _ = (readAndAssemble path signature (.compile options.excludes) options s).mapError
        (leaving path)
      cases hassembled : readAndAssemble path signature (.compile options.excludes) options s with
      | ok g => simp [buildSeen, hread, hassembled, Except.mapError]
      | error f => cases f <;> simp [buildSeen, hread, hassembled, Except.mapError, leaving]

theorem build_result_eq (path : String) (options : Options) (target : Target) :
    (build path options target).result =
      readSignature path target >>= fun signature =>
        ((openCatalog path target >>= fun c => readingsOf c options.exclusion options.minSize) >>=
          assemble path signature options.exclusion options.maxDepth).mapError (leaving path) := by
  rw [build, buildSeen_result_eq, readings_still]
  rfl

theorem buildSeen_eq_ok {path : String} {options : Options} {s : Sightings} {g : Generation}
    (hbuild : (buildSeen path options s).result = .ok g) :
    ∃ signature r, readSignature path s.signature = .ok signature ∧
      Readings.of path options.exclusion options.minSize s = .ok r ∧
      assemble path signature options.exclusion options.maxDepth r = .ok g := by
  rw [buildSeen_result_eq] at hbuild
  obtain ⟨signature, hsignature, hbuild⟩ := bind_eq_ok_iff.mp hbuild
  obtain ⟨r, hr, hassemble⟩ := bind_eq_ok_iff.mp (mapError_eq_ok_iff.mp hbuild)
  exact ⟨signature, r, hsignature, hr, hassemble⟩

end Index

end DiskCatalog
