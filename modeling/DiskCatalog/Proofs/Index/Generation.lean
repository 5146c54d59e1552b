import DiskCatalog.Proofs.Index.Contract
import DiskCatalog.Proofs.Index.FolderSize
import DiskCatalog.Proofs.Store.Keys

/-!
# What a generation holds

`MadeFrom` says how the entries of a generation come from what was read, without any limit: the
resolved entries, less those in excluded directories, with the sizes of the folders.  The entries
ascend by their numbers, and the size of each folder is the sum of the sizes of the files below it.
-/

namespace DiskCatalog.Index

open Store Pattern

/-! ## From the readings to the entries -/

structure Generation.MadeFrom (options : Options) (r : Readings) (resolved kept : List Entry)
    (g : Generation) : Prop where
  resolves : r.entries options.maxDepth = .ok resolved
  keeps : dropDirectories options.exclusion resolved = .ok kept
  entries : g.entries = sized r.links kept

theorem assemble_made {options : Options} {path : String} {signature : Signature} {r : Readings}
    {g : Generation}
    (hassemble : assemble path signature options.exclusion options.maxDepth r = .ok g) :
    ∃ resolved kept, g.MadeFrom options r resolved kept := by
  simp only [assemble, bind_eq_ok_iff, storeEntries_eq_ok_iff, withFolderSizes_eq,
    Except.ok.injEq] at hassemble
  obtain ⟨_, hresolved, resolved, ⟨-, rfl⟩, kept, hkept, entries, ⟨-, rfl⟩, statistics, -, rfl⟩ :=
    hassemble
  exact ⟨resolved, kept, hresolved, hkept, rfl⟩

theorem buildSeen_made {path : String} {options : Options} {s : Sightings} {g : Generation}
    (hbuild : (buildSeen path options s).result = .ok g) :
    ∃ r resolved kept, Readings.of path options.exclusion options.minSize s = .ok r ∧
      g.MadeFrom options r resolved kept := by
  obtain ⟨_, r, -, hr, hassemble⟩ := buildSeen_eq_ok hbuild
  obtain ⟨resolved, kept, hmade⟩ := assemble_made hassemble
  exact ⟨r, resolved, kept, hr, hmade⟩

theorem build_made {path : String} {options : Options} {target : Target} {c : Catalog}
    {g : Generation} (hopen : openCatalog path target = .ok c)
    (hbuild : (build path options target).result = .ok g) :
    ∃ r resolved kept, readingsOf c options.exclusion options.minSize = .ok r ∧
      g.MadeFrom options r resolved kept := by
  obtain ⟨r, resolved, kept, hr, hmade⟩ := buildSeen_made hbuild
  rw [readings_still, hopen, ok_bind] at hr
  exact ⟨r, resolved, kept, hr, hmade⟩

theorem build_statistics {path : String} {options : Options} {target : Target} {g : Generation}
    (hbuild : (build path options target).result = .ok g) :
    Statistics.ofEntries g.entries = .ok g.statistics := by
  obtain ⟨_, r, -, -, hassemble⟩ := buildSeen_eq_ok hbuild
  simp only [assemble, bind_eq_ok_iff, Except.ok.injEq] at hassemble
  obtain ⟨_, -, _, -, _, -, entries, -, statistics, hstatistics, rfl⟩ := hassemble
  exact mapError_eq_ok_iff.mp hstatistics

theorem readingsOf_eq_ok {c : Catalog} {exclusion : Exclusion} {minSize : Int} {r : Readings}
    (hr : readingsOf c exclusion minSize = .ok r) :
    c.candidates exclusion minSize = .ok r.candidates ∧ c.parentLinks = .ok r.links ∧
      c.itemNames = .ok r.names ∧ c.volumeTable = .ok r.volumes := by
  obtain ⟨candidates, hcandidates, hr⟩ := bind_eq_ok_iff.mp hr
  obtain ⟨links, hlinks, hr⟩ := bind_eq_ok_iff.mp hr
  obtain ⟨names, hnames, hr⟩ := bind_eq_ok_iff.mp hr
  obtain ⟨volumes, hvolumes, hr⟩ := bind_eq_ok_iff.mp hr
  obtain rfl := Except.ok.inj hr
  exact ⟨hcandidates, hlinks, hnames, hvolumes⟩

/-! ## Entries ascend -/

theorem outside_sublist {condition : Condition} {entries kept : List Entry}
    (hkept : outside condition entries = .ok kept) : kept.Sublist entries := by
  induction entries generalizing kept with
  | nil =>
      obtain rfl := Except.ok.inj hkept
      exact List.Sublist.refl []
  | cons e entries ih =>
      have hstep : ∃ (inside : Bool) (rest : List Entry), outside condition entries = .ok rest ∧
          (if inside then rest else e :: rest) = kept := by
        rw [outside] at hkept
        split at hkept
        · obtain ⟨inside, -, hkept⟩ := bind_eq_ok_iff.mp hkept
          obtain ⟨rest, hrest, hkept⟩ := bind_eq_ok_iff.mp hkept
          exact ⟨inside, rest, hrest, Except.ok.inj hkept⟩
        · obtain ⟨inside, -, hkept⟩ := bind_eq_ok_iff.mp hkept
          obtain ⟨rest, hrest, hkept⟩ := bind_eq_ok_iff.mp hkept
          exact ⟨inside, rest, hrest, Except.ok.inj hkept⟩
      obtain ⟨inside, rest, hrest, rfl⟩ := hstep
      cases inside with
      | true => exact (ih hrest).cons e
      | false => exact (ih hrest).cons_cons e

theorem dropDirectories_sublist {exclusion : Exclusion} {entries kept : List Entry}
    (hkept : dropDirectories exclusion entries = .ok kept) : kept.Sublist entries := by
  unfold dropDirectories at hkept
  split at hkept
  · obtain rfl := Except.ok.inj hkept
    exact List.Sublist.refl entries
  · split at hkept
    · contradiction
    · exact outside_sublist (mapError_eq_ok_iff.mp hkept)

/-- An entry that has another size if it is a folder. -/
def Entry.resize (sizeOf : Int → Int) (e : Entry) : Entry :=
  if e.kind = .folder then { e with size := some (sizeOf e.id) } else e

section Resize

variable (sizeOf : Int → Int) (e : Entry)

@[simp] theorem Entry.resize_id : (e.resize sizeOf).id = e.id := by
  unfold resize
  split <;> rfl

@[simp] theorem Entry.resize_name : (e.resize sizeOf).name = e.name := by
  unfold resize
  split <;> rfl

@[simp] theorem Entry.resize_kind : (e.resize sizeOf).kind = e.kind := by
  unfold resize
  split <;> rfl

@[simp] theorem Entry.resize_fullPath : (e.resize sizeOf).fullPath = e.fullPath := by
  unfold resize
  split <;> rfl

@[simp] theorem Entry.resize_volumeLabel : (e.resize sizeOf).volumeLabel = e.volumeLabel := by
  unfold resize
  split <;> rfl

@[simp] theorem Entry.resize_volumeRoot : (e.resize sizeOf).volumeRoot = e.volumeRoot := by
  unfold resize
  split <;> rfl

@[simp] theorem Entry.resize_resize (sizeOf' : Int → Int) :
    (e.resize sizeOf').resize sizeOf = e.resize sizeOf := by
  unfold resize
  by_cases hfolder : e.kind = .folder <;> simp [hfolder]

variable {e}

theorem Entry.resize_of_folder (hfolder : e.kind = .folder) :
    e.resize sizeOf = { e with size := some (sizeOf e.id) } :=
  if_pos hfolder

theorem Entry.resize_of_ne_folder (hkind : e.kind ≠ .folder) : e.resize sizeOf = e :=
  if_neg hkind

end Resize

theorem sized_eq (links : Catalog.ParentLinks) (entries : List Entry) :
    sized links entries =
      entries.map (Entry.resize fun folder => (folderSizes links entries).getD folder 0) :=
  rfl

@[simp] theorem map_id_sized (links : Catalog.ParentLinks) (entries : List Entry) :
    (sized links entries).map (·.id) = entries.map (·.id) := by
  rw [sized_eq, List.map_map]
  exact List.map_congr_left fun e _ => Entry.resize_id _ e

theorem entries_ascend {r : Readings} {maxDepth : Int} {entries : List Entry}
    (hentries : r.entries maxDepth = .ok entries) (hr : r.candidates.Pairwise (·.id < ·.id)) :
    entries.Pairwise (·.id < ·.id) := by
  have hids : (r.candidates.map (·.id)).Pairwise (· < ·) := List.pairwise_map.mpr hr
  rw [← entries_ids hentries] at hids
  exact List.pairwise_map.mp hids

namespace Generation.MadeFrom

variable {options : Options} {r : Readings} {resolved kept : List Entry} {g : Generation}

theorem kept_ascend (hg : g.MadeFrom options r resolved kept)
    (hr : r.candidates.Pairwise (·.id < ·.id)) : kept.Pairwise (·.id < ·.id) :=
  (entries_ascend hg.resolves hr).sublist (dropDirectories_sublist hg.keeps)

theorem ascend (hg : g.MadeFrom options r resolved kept)
    (hr : r.candidates.Pairwise (·.id < ·.id)) : g.entries.Pairwise (·.id < ·.id) := by
  have hkept : (kept.map (·.id)).Pairwise (· < ·) := List.pairwise_map.mpr (hg.kept_ascend hr)
  rw [← map_id_sized r.links, ← hg.entries] at hkept
  exact List.pairwise_map.mp hkept

end Generation.MadeFrom

theorem eq_of_id_eq {entries : List Entry} (hentries : entries.Pairwise (·.id < ·.id))
    {e f : Entry} (he : e ∈ entries) (hf : f ∈ entries) (hid : e.id = f.id) : e = f := by
  have hnodup : (entries.map (·.id)).Nodup :=
    List.pairwise_map.mpr (hentries.imp fun hlt => hlt.ne)
  exact List.inj_on_of_nodup_map hnodup he hf hid

/-! ## Sizes of folders -/

open Classical in
/-- The size of the files that lie below a folder, together. -/
noncomputable def sizeBelow (c : Catalog) (entries : List Entry) (folder : Int) : Int :=
  ((entries.filter fun f => f.kind = .file ∧ c.IsBelow f.id folder).map fun f => f.size.getD 0).sum

theorem reaches_eq {c : Catalog} {links : Catalog.ParentLinks}
    (hlinks : c.parentLinks = .ok links) : FolderSize.Reaches links = c.IsBelow := by
  have hsame : (fun i p => p ∈ links.parentsOf i) = c.HasLink := by
    funext i p
    exact propext (Catalog.mem_parentsOf_iff hlinks i p)
  rw [FolderSize.Reaches, hsame, Catalog.IsBelow]

theorem sum_size_ite (entries : List Entry) (p q : Entry → Bool) :
    ((entries.filter p).map fun f => if q f then f.size.getD 0 else 0).sum =
      ((entries.filter fun f => p f && q f).map fun f => f.size.getD 0).sum := by
  induction entries with
  | nil => rfl
  | cons f entries ih =>
      cases hp : p f <;> cases hq : q f <;> simp [hp, hq, ih]

theorem folderSizes_eq {c : Catalog} {links : Catalog.ParentLinks} {entries : List Entry}
    (hlinks : c.parentLinks = .ok links) (hentries : entries.Pairwise (·.id < ·.id)) {e : Entry}
    (he : e ∈ entries) (hfolder : e.kind = .folder) :
    (folderSizes links entries).getD e.id 0 = sizeBelow c entries e.id := by
  classical
  have hmem : e.id ∈ (entries.filter (·.kind = .folder)).map (·.id) :=
    List.mem_map_of_mem (List.mem_filter.mpr ⟨he, by simpa using hfolder⟩)
  have htotal := FolderSize.getElem?_total links
    ((entries.filter (·.kind = .file)).map fun f => (f.id, f.size)) hmem
  have hshare : (entries.filter (·.kind = .file)).map
      (FolderSize.share links e.id ∘ fun f => (f.id, f.size)) =
        (entries.filter (·.kind = .file)).map fun f =>
          if decide (c.IsBelow f.id e.id) then f.size.getD 0 else 0 := by
    apply List.map_congr_left
    intro f hf
    obtain ⟨hf, hfile⟩ := List.mem_filter.mp hf
    -- a file and a folder have different numbers
    have hne : e.id ≠ f.id := by
      intro hid
      obtain rfl := eq_of_id_eq hentries he hf hid
      simp [hfolder] at hfile
    simp [FolderSize.share, reaches_eq hlinks, hne]
  rw [Std.TreeMap.getD_eq_getD_getElem?, folderSizes, htotal, Option.getD_some, List.map_map,
    hshare, sum_size_ite, sizeBelow]
  simp only [Bool.decide_and]

/-- The sizes of folders count for nothing in the size of a folder. -/
theorem sizeBelow_resize (c : Catalog) (entries : List Entry) (sizeOf : Int → Int) (folder : Int) :
    sizeBelow c (entries.map (Entry.resize sizeOf)) folder = sizeBelow c entries folder := by
  classical
  have hsame : (entries.map (Entry.resize sizeOf)).filter
      (fun f => decide (f.kind = .file ∧ c.IsBelow f.id folder)) =
        entries.filter fun f => decide (f.kind = .file ∧ c.IsBelow f.id folder) := by
    rw [List.filter_map]
    simp only [Function.comp_def, Entry.resize_kind, Entry.resize_id]
    conv_rhs => rw [← List.map_id (entries.filter _)]
    apply List.map_congr_left
    intro f hf
    obtain ⟨hfile, -⟩ := of_decide_eq_true (List.mem_filter.mp hf).2
    exact Entry.resize_of_ne_folder sizeOf (by simp [hfile])
  rw [sizeBelow, hsame, sizeBelow]

/-- Folders have the sizes of the files below them. -/
theorem sized_eq_sizeBelow {c : Catalog} {links : Catalog.ParentLinks} {entries : List Entry}
    (hlinks : c.parentLinks = .ok links) (hentries : entries.Pairwise (·.id < ·.id)) :
    sized links entries = entries.map (Entry.resize (sizeBelow c entries)) := by
  rw [sized_eq]
  apply List.map_congr_left
  intro e he
  by_cases hfolder : e.kind = .folder
  · rw [Entry.resize_of_folder _ hfolder, Entry.resize_of_folder _ hfolder,
      folderSizes_eq hlinks hentries he hfolder]
  · rw [Entry.resize_of_ne_folder _ hfolder, Entry.resize_of_ne_folder _ hfolder]

/-- The size of each folder is the sum of the sizes of exactly the files of the same generation from
which the folder is reached by one or more links. -/
theorem build_folder_size {path : String} {options : Options} {target : Target} {c : Catalog}
    {g : Generation} (hopen : openCatalog path target = .ok c) (hc : c.IsKeyed)
    (hbuild : (build path options target).result = .ok g) {e : Entry} (he : e ∈ g.entries)
    (hfolder : e.kind = .folder) : e.size = some (sizeBelow c g.entries e.id) := by
  obtain ⟨r, resolved, kept, hr, hmade⟩ := build_made hopen hbuild
  obtain ⟨hcandidates, hlinks, -, -⟩ := readingsOf_eq_ok hr
  have hkept := hmade.kept_ascend (hc.candidates_ascend hcandidates)
  rw [hmade.entries, sized_eq_sizeBelow hlinks hkept] at he ⊢
  obtain ⟨k, -, rfl⟩ := List.mem_map.mp he
  rw [Entry.resize_kind] at hfolder
  rw [sizeBelow_resize, Entry.resize_id, Entry.resize_of_folder _ hfolder]

/-- A file in two folders of one folder, which lies in one of them in turn, and another file. -/
def diamond : Catalog where
  tables := (Catalog.ofRows [] [] [] []).tables
  items :=
    [⟨1, .int 200, some "top"⟩, ⟨2, .int 200, some "left"⟩, ⟨3, .int 200, some "right"⟩,
     ⟨4, .int 1, some "a.txt"⟩, ⟨5, .int 1, some "b.tmp"⟩]
  infos := [⟨.int 4, none, none, none, .int 5⟩, ⟨.int 5, none, none, none, .int 9⟩]
  links :=
    [⟨.int 4, .int 2⟩, ⟨.int 4, .int 3⟩, ⟨.int 2, .int 1⟩, ⟨.int 3, .int 1⟩, ⟨.int 1, .int 2⟩,
     ⟨.int 5, .int 2⟩]
  volumes := []

theorem build_folder_size_diamond :
    ∃ g, (build "c" ⟨["*.tmp"], 0, 100⟩ (.file ⟨1, 1, .database diamond⟩)).result = .ok g ∧
      sizeBelow diamond g.entries 1 = 5 := by
  have hrun : (build "c" ⟨["*.tmp"], 0, 100⟩ (.file ⟨1, 1, .database diamond⟩)).result.map
      (fun g => g.entries.head?.map fun e => (e.id, e.kind, e.size)) =
        .ok (some (1, .folder, some 5)) := by
    decide +kernel
  obtain ⟨g, hbuild, hhead⟩ := map_eq_ok_iff.mp hrun
  obtain ⟨e, he, hfacts⟩ := Option.map_eq_some_iff.mp hhead
  obtain ⟨hid, hkind, hsize⟩ : e.id = 1 ∧ e.kind = .folder ∧ e.size = some 5 := by
    simpa using hfacts
  have hbelow := build_folder_size (c := diamond) (by decide +kernel) (by decide +kernel) hbuild
    (List.mem_of_head? he) hkind
  rw [hid, hsize, Option.some.injEq] at hbelow
  exact ⟨g, hbuild, hbelow.symm⟩

end DiskCatalog.Index
