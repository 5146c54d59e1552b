import DiskCatalog.Proofs.Fallible
import DiskCatalog.Search.Result

/-!
# What a result shows

A result repeats the number, the name, the dates and the volume of an entry, counts an unknown size
as zero and puts the path below the root or the label of the volume.  Every entry has its result,
except where the path had to be put below a root that is no text.
-/

namespace DiskCatalog

open Store

namespace Index.Entry

/-- The root of the volume of an entry is a text, as its column is declared, or no path is put
below it. -/
def IsShowable (e : Entry) : Prop :=
  ∀ full ∈ e.fullPath, full ≠ "" → ∀ root ∈ e.volumeRoot, root.isText ∨ root.isEmpty

instance (e : Entry) : Decidable e.IsShowable :=
  inferInstanceAs (Decidable
    (∀ full ∈ e.fullPath, full ≠ "" → ∀ root ∈ e.volumeRoot, root.isText ∨ root.isEmpty))

end Index.Entry

namespace Search

open Index

/-- Where a result shows an entry: at its name while it has no path, else below the root of its
volume, without a root below the label in brackets, and without either at the path alone. -/
inductive ShownAt (e : Entry) : Value → Prop
  | name (hpath : ∀ full ∈ e.fullPath, full = "") : ShownAt e e.name.toValue
  | root {full root : String} (hpath : e.fullPath = some full) (hfull : full ≠ "")
      (hroot : e.volumeRoot = some (.text root)) (hne : root ≠ "") :
      ShownAt e (.text (joinRoot root full))
  | label {full : String} {label : TextCell} (hpath : e.fullPath = some full) (hfull : full ≠ "")
      (hroot : ∀ root ∈ e.volumeRoot, root.isEmpty) (hlabel : e.volumeLabel = some label)
      (hne : label.isEmpty = false) : ShownAt e (.text ("[" ++ label.shown ++ "]/" ++ full))
  | path {full : String} (hpath : e.fullPath = some full) (hfull : full ≠ "")
      (hroot : ∀ root ∈ e.volumeRoot, root.isEmpty)
      (hlabel : ∀ label ∈ e.volumeLabel, label.isEmpty) : ShownAt e (.text full)

def typeOfKind : ItemKind → String
  | .file => "file"
  | .folder => "folder"
  | .volume => "volume"

/-- A result shows an entry. -/
structure Result.Shows (r : Result) (e : Entry) : Prop where
  id : r.id = e.id
  name : r.name = e.name.toValue
  path : ShownAt e r.path
  size : r.size = e.size.getD 0
  modified : r.modified = .ofText? e.modified
  created : r.created = .ofText? e.created
  type : r.type = typeOfKind e.kind
  volumeLabel : r.volumeLabel = TextCell.toValue? e.volumeLabel
  volumeRoot : r.volumeRoot = TextCell.toValue? e.volumeRoot

/-! ## Where an entry is shown -/

@[simp] theorem isEmpty_text (s : String) : (Value.text s).isEmpty = s.isEmpty := rfl

@[simp] theorem shown_text (s : String) : (Value.text s).shown = s := rfl

@[simp] theorem toValue?_some (c : TextCell) : TextCell.toValue? (some c) = c.toValue := rfl

@[simp] theorem isEmpty_toValue (c : TextCell) : c.toValue.isEmpty = c.isEmpty := by
  cases c <;> rfl

@[simp] theorem shown_toValue (c : TextCell) : c.toValue.shown = c.shown := by
  cases c <;> rfl

theorem isEmpty_ofText? {text : Option String} :
    (Value.ofText? text).isEmpty = true ↔ ∀ s ∈ text, s = "" := by
  cases text <;> simp [Value.ofText?, Value.isEmpty]

theorem isEmpty_toValue? {content : Option TextCell} :
    (TextCell.toValue? content).isEmpty = true ↔ ∀ c ∈ content, c.isEmpty = true := by
  cases content with
  | none => exact iff_of_true rfl (by simp)
  | some c => simp

/-- The place of an entry, from its name, its path and its volume. -/
def placeOf (e : Entry) : Except Failure Value :=
  displayPath e.name.toValue (.ofText? e.fullPath) (TextCell.toValue? e.volumeLabel)
    (TextCell.toValue? e.volumeRoot)

theorem ShownAt.placeOf_eq {e : Entry} {v : Value} (hshown : ShownAt e v) : placeOf e = .ok v := by
  cases hshown with
  | name hpath => exact if_pos (isEmpty_ofText?.mpr hpath)
  | root hpath hfull hroot hne =>
      simp [placeOf, displayPath, hpath, hfull, hroot, hne, Value.ofText?, TextCell.toValue]
  | label hpath hfull hroot hlabel hne =>
      simp [placeOf, displayPath, hpath, hfull, isEmpty_toValue?.mpr hroot, hlabel, hne,
        Value.ofText?]
  | path hpath hfull hroot hlabel =>
      simp [placeOf, displayPath, hpath, hfull, isEmpty_toValue?.mpr hroot,
        isEmpty_toValue?.mpr hlabel, Value.ofText?]

theorem exists_shownAt {e : Entry} (he : e.IsShowable) : ∃ v, ShownAt e v := by
  by_cases hpath : ∀ full ∈ e.fullPath, full = ""
  · exact ⟨_, .name hpath⟩
  push Not at hpath
  obtain ⟨full, hpath, hfull⟩ := hpath
  by_cases hroot : ∀ root ∈ e.volumeRoot, root.isEmpty
  · by_cases hlabel : ∀ label ∈ e.volumeLabel, label.isEmpty
    · exact ⟨_, .path hpath hfull hroot hlabel⟩
    · push Not at hlabel
      obtain ⟨label, hlabel, hne⟩ := hlabel
      exact ⟨_, .label hpath hfull hroot hlabel (Bool.eq_false_iff.mpr hne)⟩
  · push Not at hroot
    obtain ⟨root, hroot, hne⟩ := hroot
    have htext := (he full hpath hfull root hroot).resolve_right hne
    cases root with
    | text root => exact ⟨_, .root hpath hfull hroot (by simpa [TextCell.isEmpty] using hne)⟩
    | blob bytes | broken bytes => contradiction

theorem placeOf_of_not_isShowable {e : Entry} (he : ¬ e.IsShowable) :
    placeOf e = .error .bytesAsRoot := by
  simp only [Entry.IsShowable, not_forall, not_or] at he
  obtain ⟨full, hpath, hfull, root, hroot, hbytes, hne⟩ := he
  rw [Option.mem_def] at hpath hroot
  cases root with
  | text root => contradiction
  | blob bytes | broken bytes =>
      have hbytes : (Value.bytes bytes).isEmpty = false := Bool.eq_false_iff.mpr hne
      simp [placeOf, displayPath, hpath, hfull, hroot, hbytes, Value.ofText?, TextCell.toValue]

theorem succeeds_placeOf_iff {e : Entry} : Succeeds (placeOf e) ↔ e.IsShowable := by
  by_cases he : e.IsShowable
  · obtain ⟨v, hshown⟩ := exists_shownAt he
    exact iff_of_true ⟨v, hshown.placeOf_eq⟩ he
  · rw [placeOf_of_not_isShowable he]
    exact iff_of_false (not_succeeds_error _) he

theorem placeOf_eq_ok_iff {e : Entry} {v : Value} : placeOf e = .ok v ↔ ShownAt e v := by
  refine ⟨fun hplace => ?_, ShownAt.placeOf_eq⟩
  obtain ⟨w, hshown⟩ := exists_shownAt (succeeds_placeOf_iff.mp ⟨v, hplace⟩)
  obtain rfl := Except.ok.inj (hplace.symm.trans hshown.placeOf_eq)
  exact hshown

/-! ## The result of an entry -/

theorem typeName_number (kind : ItemKind) : typeName (.int kind.number) = typeOfKind kind := by
  cases kind <;> rfl

namespace Result

/-- The result that shows an entry at a place. -/
def ofPlace (e : Entry) (path : Value) : Result where
  id := e.id
  name := e.name.toValue
  path
  size := e.size.getD 0
  modified := .ofText? e.modified
  created := .ofText? e.created
  type := typeOfKind e.kind
  volumeLabel := TextCell.toValue? e.volumeLabel
  volumeRoot := TextCell.toValue? e.volumeRoot

theorem ofEntry_eq (e : Entry) : ofEntry e = (placeOf e).map (ofPlace e) := by
  obtain ⟨id, name, kind, size, modified, created, fullPath, label, root⟩ := e
  simp only [ofEntry, ofRow, Entry.toRow, placeOf, typeName_number]
  cases displayPath name.toValue (.ofText? fullPath) (TextCell.toValue? label)
      (TextCell.toValue? root) with
  | error f => rfl
  | ok path =>
      cases size with
      | none => rfl
      | some n =>
          by_cases hzero : n = 0
          · subst hzero
            rfl
          · simp [hzero, Value.ofInt?, Value.isEmpty, Value.toInteger, Except.mapError, Except.map,
              ofPlace]

theorem shows_ofPlace_iff {e : Entry} {path : Value} :
    (ofPlace e path).Shows e ↔ ShownAt e path :=
  ⟨Shows.path, fun hpath => ⟨rfl, rfl, hpath, rfl, rfl, rfl, rfl, rfl, rfl⟩⟩

theorem Shows.eq_ofPlace {r : Result} {e : Entry} (hshows : r.Shows e) : r = ofPlace e r.path := by
  obtain ⟨hid, hname, -, hsize, hmodified, hcreated, htype, hlabel, hroot⟩ := hshows
  cases r
  simp_all [ofPlace]

/-- The result of an entry is the one that shows it. -/
theorem ofEntry_eq_ok_iff {e : Entry} {r : Result} : ofEntry e = .ok r ↔ r.Shows e := by
  rw [ofEntry_eq, map_eq_ok_iff]
  constructor
  · rintro ⟨path, hplace, rfl⟩
    exact shows_ofPlace_iff.mpr (placeOf_eq_ok_iff.mp hplace)
  · intro hshows
    exact ⟨r.path, placeOf_eq_ok_iff.mpr hshows.path, hshows.eq_ofPlace.symm⟩

theorem succeeds_ofEntry_iff {e : Entry} : Succeeds (ofEntry e) ↔ e.IsShowable := by
  rw [ofEntry_eq, succeeds_map, succeeds_placeOf_iff]

theorem ofEntry_of_not_isShowable {e : Entry} (he : ¬ e.IsShowable) :
    ofEntry e = .error .bytesAsRoot := by
  rw [ofEntry_eq, placeOf_of_not_isShowable he]
  rfl

/-! ## The results of several entries -/

theorem mapM_ofEntry_eq_ok_iff {entries : List Entry} {results : List Result} :
    entries.mapM ofEntry = .ok results ↔ List.Forall₂ Shows results entries := by
  simp only [mapM_eq_ok_iff, ofEntry_eq_ok_iff]
  exact ⟨List.Forall₂.flip, List.Forall₂.flip⟩

theorem succeeds_mapM_ofEntry_iff {entries : List Entry} :
    Succeeds (entries.mapM ofEntry) ↔ ∀ e ∈ entries, e.IsShowable := by
  simp only [succeeds_mapM_iff, succeeds_ofEntry_iff]

theorem ofEntry_failure (e : Entry) : FailsOnlyBy (· = .bytesAsRoot) (ofEntry e) := by
  by_cases he : e.IsShowable
  · obtain ⟨r, hr⟩ := succeeds_ofEntry_iff.mpr he
    simp [hr]
  · simp [ofEntry_of_not_isShowable he]

end Result

end Search

end DiskCatalog
