import DiskCatalog.Proofs.Index.Exclusion
import DiskCatalog.Proofs.Store.Rows

/-!
# Names of entries and ends of their paths

An entry is shown by the name of the first row of its item that the enumeration meets and keeps, and
an empty name of a file gives way to that of the item.  Its path ends in the name of the first row
that the reading of the names meets, where only a missing name gives way.  A path therefore ends in
the name of its entry where both rows are one and no empty name stands before another.
-/

namespace DiskCatalog.Index

open Store Pattern

/-! ## From rows to entries -/

section Rows

variable {c : Catalog} {exclusion : Exclusion} {minSize maxDepth : Int} {r : Readings}
  {resolved : List Entry}

/-- Every entry that is resolved is made of the first row of an item that is kept. -/
theorem exists_row_of_mem_resolved (hc : c.IsKeyed)
    (hr : readingsOf c exclusion minSize = .ok r) (hresolved : r.entries maxDepth = .ok resolved)
    {e : Entry} (he : e ∈ resolved) :
    ∃ item ∈ c.items, ∃ info candidate, c.firstKept exclusion minSize item = some info ∧
      Catalog.candidateOfRow (item, info) = .ok candidate ∧
      r.entryOf candidate (r.graph.ancestry maxDepth item.id) = .ok e := by
  rw [entries_eq_mapM] at hresolved
  obtain ⟨candidate, hcandidate, hentry⟩ := exists_of_mem_mapM hresolved he
  obtain ⟨row, hrow, hmade⟩ :=
    exists_of_mem_mapM (Catalog.mapM_chosen_of_candidates (readingsOf_eq_ok hr).1) hcandidate
  obtain ⟨hitem, hinfo⟩ := hc.mem_chosen_iff.mp hrow
  rw [(Catalog.candidateOfRow_facts hmade).1] at hentry
  exact ⟨row.1, hitem, row.2, candidate, hinfo, hmade, hentry⟩

/-- The first row of an item that is kept becomes an entry. -/
theorem exists_resolved_of_firstKept (hc : c.IsKeyed)
    (hr : readingsOf c exclusion minSize = .ok r) (hresolved : r.entries maxDepth = .ok resolved)
    {item : ItemRow} (hitem : item ∈ c.items) {info : Option InfoRow}
    (hinfo : c.firstKept exclusion minSize item = some info) :
    ∃ candidate, Catalog.candidateOfRow (item, info) = .ok candidate ∧
      ∃ e ∈ resolved, r.entryOf candidate (r.graph.ancestry maxDepth item.id) = .ok e := by
  rw [entries_eq_mapM] at hresolved
  have hrow : (item, info) ∈ Catalog.chosen exclusion minSize none c.joinedRows :=
    hc.mem_chosen_iff.mpr ⟨hitem, hinfo⟩
  obtain ⟨candidate, hcandidate, hmade⟩ :=
    exists_mem_of_mapM (Catalog.mapM_chosen_of_candidates (readingsOf_eq_ok hr).1) hrow
  obtain ⟨e, he, hentry⟩ := exists_mem_of_mapM hresolved hcandidate
  rw [(Catalog.candidateOfRow_facts hmade).1] at hentry
  exact ⟨candidate, hmade, e, he, hentry⟩

theorem nameOf_graph (hc : c.IsKeyed) (hr : readingsOf c exclusion minSize = .ok r)
    {item : ItemRow} (hitem : item ∈ c.items) :
    r.graph.nameOf item.id = Catalog.pathName item (c.namingOf item.id) := by
  have hname := hc.name_of_itemNames (readingsOf_eq_ok hr).2.2.1 hitem
  have hname? : r.graph.name? item.id = r.names[item.id]?.map (·.name) := rfl
  rw [ItemGraph.nameOf, hname?, hname, Option.getD_some]

end Rows

/-! ## Ends of paths -/

/-- A path is a text, or the text is what stands behind one of its slashes. -/
def EndsIn (full name : String) : Prop :=
  full = name ∨ ∃ front, full = front ++ "/" ++ name

/-- A path ends in a name that is a text; it does not end in bytes. -/
def PathEndsIn (full : String) : TextCell → Prop
  | .text name => EndsIn full name
  | .blob _ | .broken _ => False

/-- A name that is a text without slashes. -/
def SlashFree : TextCell → Prop
  | .text name => '/' ∉ name.toList
  | .blob _ | .broken _ => False

theorem endsIn_iff {full name : String} :
    EndsIn full name ↔ full = name ∨ '/' :: name.toList <:+ full.toList := by
  have hslash : "/".toList = ['/'] := rfl
  unfold EndsIn
  apply or_congr_right
  constructor
  · intro hfull
    obtain ⟨front, rfl⟩ := hfull
    exact ⟨front.toList, by simp [hslash]⟩
  · intro hsuffix
    obtain ⟨front, hfront⟩ := hsuffix
    refine ⟨String.ofList front, ?_⟩
    rw [← String.toList_inj]
    simp [← hfront, hslash]

instance (full name : String) : Decidable (EndsIn full name) :=
  decidable_of_iff _ endsIn_iff.symm

instance (full : String) : (name : TextCell) → Decidable (PathEndsIn full name)
  | .text name => inferInstanceAs (Decidable (EndsIn full name))
  | .blob _ | .broken _ => .isFalse id

theorem takeWhile_of_slashFree {name : String} (hname : '/' ∉ name.toList) (rest : List Char)
    (hrest : rest = [] ∨ ∃ s, rest = '/' :: s) :
    (name.toList.reverse ++ rest).takeWhile (· ≠ '/') = name.toList.reverse := by
  have hall : ∀ ch ∈ name.toList.reverse, decide (ch ≠ '/') = true := by
    intro ch hch
    have hne : ch ≠ '/' := by
      rintro rfl
      exact hname (List.mem_reverse.mp hch)
    exact decide_eq_true hne
  rw [List.takeWhile_append_of_pos hall]
  cases hrest with
  | inl hnil => simp [hnil]
  | inr hslash =>
      obtain ⟨s, rfl⟩ := hslash
      simp

theorem EndsIn.takeWhile_eq {full name : String} (hfull : EndsIn full name)
    (hname : '/' ∉ name.toList) :
    full.toList.reverse.takeWhile (· ≠ '/') = name.toList.reverse := by
  cases endsIn_iff.mp hfull with
  | inl heq => simpa [heq] using takeWhile_of_slashFree hname [] (Or.inl rfl)
  | inr hsuffix =>
      obtain ⟨front, hfront⟩ := hsuffix
      have hslash := takeWhile_of_slashFree hname ('/' :: front.reverse) (Or.inr ⟨_, rfl⟩)
      simpa [← hfront] using hslash

/-- A path ends in one name without slashes only. -/
theorem PathEndsIn.unique {full : String} {name other : TextCell} (hname : PathEndsIn full name)
    (hother : PathEndsIn full other) (hnameFree : SlashFree name) (hotherFree : SlashFree other) :
    name = other := by
  cases name with
  | blob _ | broken _ => exact hname.elim
  | text name =>
      cases other with
      | blob _ | broken _ => exact hother.elim
      | text other =>
          have hsame : name.toList.reverse = other.toList.reverse :=
            (hname.takeWhile_eq hnameFree).symm.trans (hother.takeWhile_eq hotherFree)
          exact congrArg TextCell.text (String.toList_inj.mp (List.reverse_injective hsame))

/-- The last name of a chain that is not empty is that of its item. -/
theorem ItemGraph.getLast?_ancestry (g : ItemGraph) (maxDepth item : Int) :
    (g.ancestry maxDepth item).segments = [] ∨
      (g.ancestry maxDepth item).segments.getLast? = some (g.nameOf item) := by
  have hclosed : g.IsClosed (ItemGraph.boundOf maxDepth) fun i a =>
      a.segments = [] ∨ a.segments.getLast? = some (g.nameOf i) := by
    constructor
    case volume => exact fun i _ => Or.inl rfl
    case alone => exact fun i => Or.inr rfl
    case below => exact fun i p _ _ _ => Or.inr rfl
    case extend =>
      intro i p a _ _
      apply Or.inr
      unfold Ancestry.extend
      simp only
      split
      · -- what is given up stands at the front
        have hfew : ¬ (a.segments ++ [g.nameOf i]).length ≤
            (a.segments ++ [g.nameOf i]).length - (ItemGraph.boundOf maxDepth + 1) := by
          rw [List.length_append, List.length_singleton]
          omega
        rw [List.getLast?_drop, if_neg hfew, List.getLast?_concat]
      · exact List.getLast?_concat
  exact hclosed.ancestry item

theorem pathEndsIn_fullPath (g : ItemGraph) {maxDepth item : Int} {full : String}
    (hfull : (g.ancestry maxDepth item).fullPath = .ok (some full)) :
    PathEndsIn full (g.nameOf item) := by
  obtain ⟨hjoinable, hjoined⟩ := Ancestry.fullPath_eq_ok_iff.mp hfull
  split at hjoined
  · contradiction
  · rename_i hsome
    obtain rfl := Option.some.inj hjoined
    have hlast := (g.getLast?_ancestry maxDepth item).resolve_left
      fun hnil => hsome (List.isEmpty_iff.mpr hnil)
    obtain ⟨above, habove⟩ := List.getLast?_eq_some_iff.mp hlast
    have htext := hjoinable (g.nameOf item) (List.mem_of_mem_getLast? hlast)
    cases hname : g.nameOf item with
    | blob _ | broken _ => simp [hname, TextCell.isText] at htext
    | text name =>
        rw [habove, List.map_append, hname, List.map_singleton]
        by_cases hnone : above.map (·.shown) = []
        · rw [hnone, List.nil_append]
          exact Or.inl (String.intercalate_singleton ..)
        · rw [String.intercalate_append_of_ne_nil hnone (List.cons_ne_nil _ _)]
          exact Or.inr ⟨_, congrArg _ (String.intercalate_singleton ..)⟩

/-! ## Names and paths of a build -/

/-- An entry is named by the row that is shown, and its path by the first row about its item that
the reading of the names meets. -/
structure Entry.NamedBy (e : Entry) (item : ItemRow) (shown first : Option InfoRow) : Prop where
  name : e.name = Catalog.shownName item shown
  path : ∀ full ∈ e.fullPath, PathEndsIn full (Catalog.pathName item first)
  agree : shown = first → Catalog.NamesAgree item first →
    ∀ full ∈ e.fullPath, PathEndsIn full e.name
  differ : SlashFree e.name → SlashFree (Catalog.pathName item first) →
    ∀ full ∈ e.fullPath, (PathEndsIn full e.name ↔ e.name = Catalog.pathName item first)

theorem Entry.NamedBy.of_path {e : Entry} {item : ItemRow} {shown first : Option InfoRow}
    (hname : e.name = Catalog.shownName item shown)
    (hpath : ∀ full ∈ e.fullPath, PathEndsIn full (Catalog.pathName item first)) :
    e.NamedBy item shown first := by
  refine ⟨hname, hpath, ?agree, ?differ⟩
  case agree =>
    intro hsame hagree full hfull
    subst hsame
    rw [hname, Catalog.shownName_eq_pathName hagree]
    exact hpath full hfull
  case differ =>
    intro hfree hpathFree full hfull
    constructor
    · intro hends
      exact hends.unique (hpath full hfull) hfree hpathFree
    · intro hsame
      rw [hsame]
      exact hpath full hfull

/-- Every entry of a build is named by the first row of its item that is kept, and its path ends in
the name of the first row that the reading of the names meets. -/
theorem build_namedBy {path : String} {options : Options} {target : Target} {c : Catalog}
    {g : Generation} (hopen : openCatalog path target = .ok c) (hc : c.IsKeyed)
    (hbuild : (build path options target).result = .ok g) {e : Entry} (he : e ∈ g.entries) :
    ∃ item ∈ c.items, item.id = e.id ∧
      ∃ shown, c.firstKept options.exclusion options.minSize item = some shown ∧
        e.NamedBy item shown (c.namingOf item.id) := by
  obtain ⟨r, resolved, kept, hr, hmade⟩ := build_made hopen hbuild
  rw [hmade.entries, sized_eq] at he
  obtain ⟨k, hk, rfl⟩ := List.mem_map.mp he
  have hresolved := (dropDirectories_sublist hmade.keeps).subset hk
  obtain ⟨item, hitem, shown, candidate, hshown, hcandidate, hentry⟩ :=
    exists_row_of_mem_resolved hc hr hmade.resolves hresolved
  obtain ⟨hid, hname, hfull⟩ := entryOf_facts hentry
  obtain ⟨hcandidateId, hdisplayed, -⟩ := Catalog.candidateOfRow_facts hcandidate
  refine ⟨item, hitem, ?_, shown, hshown, .of_path ?_ ?_⟩
  · rw [Entry.resize_id, hid, hcandidateId]
  · rw [Entry.resize_name, hname, hdisplayed]
  · intro full hmem
    rw [Entry.resize_fullPath] at hmem
    rw [hmem] at hfull
    rw [← nameOf_graph hc hr hitem]
    exact pathEndsIn_fullPath r.graph hfull

/-- A folder with one file, which has some names of its own. -/
def drawer (names : List (Option TextCell)) : Catalog where
  tables := (Catalog.ofRows [] [] [] []).tables
  items := [⟨1, .int 200, some "d"⟩, ⟨2, .int 1, some "f"⟩]
  infos := names.map fun name => ⟨.int 2, name, none, none, .int 10⟩
  links := [⟨.int 2, .int 1⟩]
  volumes := []

theorem build_namedBy_drawer :
    ∃ g e item shown,
      (build "c" ⟨[], 0, 100⟩ (.file ⟨1, 1, .database (drawer ["new"])⟩)).result = .ok g ∧
      e ∈ g.entries ∧ e.name = "new" ∧ e.fullPath = some "d/new" ∧
      e.NamedBy item shown ((drawer ["new"]).namingOf item.id) := by
  have hbuild : (build "c" ⟨[], 0, 100⟩ (.file ⟨1, 1, .database (drawer ["new"])⟩)).result.map
      (fun g => g.entries.map fun e => (e.name, e.fullPath)) =
        .ok [("d", some "d"), ("new", some "d/new")] := by
    decide +kernel
  obtain ⟨g, hg, hentries⟩ := map_eq_ok_iff.mp hbuild
  have hmem : (TextCell.text "new", some "d/new") ∈ g.entries.map fun e => (e.name, e.fullPath) := by
    rw [hentries]
    decide
  obtain ⟨e, he, hpair⟩ := List.mem_map.mp hmem
  obtain ⟨hname, hfull⟩ := Prod.mk.inj hpair
  obtain ⟨item, -, -, shown, -, hnamed⟩ :=
    build_namedBy (c := drawer ["new"]) (by decide +kernel) (by decide +kernel) hg he
  exact ⟨g, e, item, shown, hg, he, hname, hfull, hnamed⟩

/-- A path ends in another name than that of its entry where a name of the file is empty, and where
a first row is left out. -/
theorem build_names_apart :
    (∃ g, (build "c" ⟨[], 0, 100⟩ (.file ⟨1, 1, .database (drawer [""])⟩)).result = .ok g ∧
      ∃ e ∈ g.entries, ∃ full ∈ e.fullPath, ¬ PathEndsIn full e.name) ∧
    ∃ g, (build "c" ⟨["*.tmp"], 0, 100⟩
        (.file ⟨1, 1, .database (drawer ["a.tmp", "b.txt"])⟩)).result = .ok g ∧
      ∃ e ∈ g.entries, ∃ full ∈ e.fullPath, ¬ PathEndsIn full e.name := by
  have happart : ∀ {path : String} {options : Options} {target : Target} (name full : String),
      (build path options target).result.map
        (fun g => g.entries.map fun e => (e.name, e.fullPath)) =
          .ok [("d", some "d"), (name, some full)] →
      ¬ PathEndsIn full name →
        ∃ g, (build path options target).result = .ok g ∧
          ∃ e ∈ g.entries, ∃ full ∈ e.fullPath, ¬ PathEndsIn full e.name := by
    intro path options target name full hbuild hends
    obtain ⟨g, hg, hentries⟩ := map_eq_ok_iff.mp hbuild
    have hmem : (TextCell.text name, some full) ∈ g.entries.map fun e => (e.name, e.fullPath) := by
      rw [hentries]
      exact List.mem_cons_of_mem _ List.mem_cons_self
    obtain ⟨e, he, hpair⟩ := List.mem_map.mp hmem
    obtain ⟨hname, hfull⟩ := Prod.mk.inj hpair
    exact ⟨g, hg, e, he, full, hfull, hname ▸ hends⟩
  constructor
  · exact happart "f" "d/" (by decide +kernel) (by decide)
  · exact happart "b.txt" "d/a.tmp" (by decide +kernel) (by decide)

end DiskCatalog.Index
