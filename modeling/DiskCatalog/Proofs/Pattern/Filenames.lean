import DiskCatalog.Proofs.Pattern.Segments

/-!
# What filename patterns keep

The pattern of a glob is made by five replacements, one after the other; none of them touches what
an earlier one wrote, so each character of the glob has its own token.  The patterns of a list are
sorted in their order, each that is not blank into one of three places, and those with a misplaced
slash have no part in either condition.  A name is kept when it matches none of the globs.
-/

namespace DiskCatalog.Pattern

open Text

/-! ## Replacements -/

def replaceEach (c : Char) (new s : List Char) : List Char :=
  s.flatMap fun d => if d = c then new else [d]

/-- Replaces characters, one after the other. -/
def replaceAll : List (Char × List Char) → List Char → List Char
  | [], s => s
  | (c, new) :: steps, s => replaceAll steps (replaceEach c new s)

theorem replaceAll_flatMap (steps : List (Char × List Char)) (f : Char → List Char)
    (s : List Char) :
    replaceAll steps (s.flatMap f) = s.flatMap fun c => replaceAll steps (f c) := by
  induction steps generalizing f with
  | nil => rfl
  | cons step steps ih =>
      obtain ⟨c, new⟩ := step
      simp only [replaceAll, replaceEach, List.flatMap_assoc, ih]

namespace Glob

/-- The replacements that make the pattern of a glob: escapes first, the star last. -/
def replacements : List (Char × List Char) :=
  [('\\', ['\\', '\\']), ('%', ['\\', '%']), ('_', ['\\', '_']), ('.', ['\\', '.']), ('*', ['%'])]

theorem replaceAll_singleton (c : Char) : replaceAll replacements [c] = patternChar c := by
  by_cases hspecial : c = '\\' ∨ c = '%' ∨ c = '_' ∨ c = '.' ∨ c = '*'
  · rcases hspecial with rfl | rfl | rfl | rfl | rfl <;> decide
  · push Not at hspecial
    obtain ⟨hbackslash, hpercent, hunderscore, hdot, hstar⟩ := hspecial
    simp [replacements, replaceAll, replaceEach, patternChar, escapeChar, hbackslash, hpercent,
      hunderscore, hdot, hstar]

theorem replaceAll_eq_toPattern (glob : String) :
    String.ofList (replaceAll replacements glob.toList) = toPattern glob := by
  have hsingle := replaceAll_flatMap replacements (fun c => [c]) glob.toList
  simp only [List.flatMap_singleton', replaceAll_singleton] at hsingle
  rw [hsingle, toPattern]

/-! ## Characters of globs -/

theorem matches_append {front back s : List Char} :
    Matches (front ++ back) s ↔
      ∃ s₁ s₂, s = s₁ ++ s₂ ∧ Matches front s₁ ∧ Matches back s₂ := by
  simp only [← matches_tokens, List.map_append, Token.matches_append]

/-- What has no star, beside a star or not, stands for itself up to the case of its letters. -/
theorem matches_literal {plain rest s : List Char} (hplain : '*' ∉ plain) :
    Matches (plain ++ rest) s ↔
      ∃ s₁ s₂, s = s₁ ++ s₂ ∧ List.Forall₂ StandsFor plain s₁ ∧ Matches rest s₂ := by
  simp only [matches_append, matches_iff_of_noStar hplain]

end Glob

/-! ## Sorting -/

/-- Blanks aside, the first slash of a pattern starts it or has more than a star behind it. -/
def MisplacesSlash (text : String) : Prop :=
  ∃ front back, trim text.toList = front ++ '/' :: back ∧ '/' ∉ front ∧
    (front = [] ∨ back ≠ [] ∧ back ≠ ['*'])

theorem ExclusionKind.ofText_eq_blank_iff {text : String} :
    ofText text = .blank ↔ trimString text = "" := by
  rw [trimString_eq_iff, String.toList_empty]
  constructor
  · intro hkind
    rcases cases_text text with hblank | ⟨hne, hnone⟩ | ⟨front, back, hsplit, hfront⟩
    · exact hblank
    · rw [ofText_of_noSlash hne hnone] at hkind
      contradiction
    · rw [ofText_of_split hsplit hfront] at hkind
      split at hkind <;> contradiction
  · exact ofText_of_blank

theorem ExclusionKind.ofText_eq_invalid_iff {text pattern : String} :
    ofText text = .invalid pattern ↔ MisplacesSlash text ∧ trimString text = pattern := by
  constructor
  · intro hkind
    rcases cases_text text with hblank | ⟨hne, hnone⟩ | ⟨front, back, hsplit, hfront⟩
    · rw [ofText_of_blank hblank] at hkind
      contradiction
    · rw [ofText_of_noSlash hne hnone] at hkind
      contradiction
    · rw [ofText_of_split hsplit hfront] at hkind
      split at hkind
      case isTrue => contradiction
      case isFalse hparts =>
        refine ⟨⟨front, back, hsplit, hfront, ?_⟩, invalid.inj hkind⟩
        tauto
  · rintro ⟨⟨front, back, hsplit, hfront, hparts⟩, rfl⟩
    rw [ofText_of_split hsplit hfront, if_neg]
    tauto

namespace Exclusion

/-- Where the patterns of a list land.  One that is not blank lands in front of what the patterns
behind it are sorted into, in the place of its kind. -/
inductive Lands : List (Option String) → Exclusion → Prop
  | nil : Lands [] .empty
  | blank {p : Option String} {patterns : List (Option String)} {e : Exclusion}
      (hblank : trimString (p.getD "") = "") (hrest : Lands patterns e) : Lands (p :: patterns) e
  | filename {p : Option String} {patterns : List (Option String)} {e : Exclusion} {glob : String}
      (hnames : NamesFile (p.getD "") glob) (hrest : Lands patterns e) :
      Lands (p :: patterns) { e with filenames := glob :: e.filenames }
  | directory {p : Option String} {patterns : List (Option String)} {e : Exclusion} {glob : String}
      (hnames : NamesDirectory (p.getD "") glob) (hrest : Lands patterns e) :
      Lands (p :: patterns) { e with directories := glob :: e.directories }
  | rejected {p : Option String} {patterns : List (Option String)} {e : Exclusion}
      (hslash : MisplacesSlash (p.getD "")) (hrest : Lands patterns e) :
      Lands (p :: patterns) { e with rejected := trimString (p.getD "") :: e.rejected }

variable {patterns : List (Option String)} {name : String}

theorem lands_compile (patterns : List (Option String)) : Lands patterns (compile patterns) := by
  induction patterns with
  | nil => exact .nil
  | cons p patterns ih =>
      cases hkind : ExclusionKind.ofText (p.getD "") with
      | blank =>
          have hcompile : compile (p :: patterns) = compile patterns := by
            simp [compile, ofKinds, hkind]
          rw [hcompile]
          exact .blank (ExclusionKind.ofText_eq_blank_iff.mp hkind) ih
      | filename glob =>
          have hcompile : compile (p :: patterns) =
              { compile patterns with filenames := glob :: (compile patterns).filenames } := by
            simp [compile, ofKinds, hkind]
          rw [hcompile]
          exact .filename (ExclusionKind.ofText_eq_filename_iff.mp hkind) ih
      | directory glob =>
          have hcompile : compile (p :: patterns) =
              { compile patterns with directories := glob :: (compile patterns).directories } := by
            simp [compile, ofKinds, hkind]
          rw [hcompile]
          exact .directory (ExclusionKind.ofText_eq_directory_iff.mp hkind) ih
      | invalid pattern =>
          obtain ⟨hslash, rfl⟩ := ExclusionKind.ofText_eq_invalid_iff.mp hkind
          have hcompile : compile (p :: patterns) = { compile patterns with
              rejected := trimString (p.getD "") :: (compile patterns).rejected } := by
            simp [compile, ofKinds, hkind]
          rw [hcompile]
          exact .rejected hslash ih

theorem Lands.eq_compile {e : Exclusion} (hlands : Lands patterns e) : e = compile patterns := by
  induction hlands with
  | nil => rfl
  | blank hblank _ ih =>
      have hkind := ExclusionKind.ofText_eq_blank_iff.mpr hblank
      simp [ih, compile, ofKinds, hkind]
  | filename hnames _ ih =>
      have hkind := ExclusionKind.ofText_eq_filename_iff.mpr hnames
      simp [ih, compile, ofKinds, hkind]
  | directory hnames _ ih =>
      have hkind := ExclusionKind.ofText_eq_directory_iff.mpr hnames
      simp [ih, compile, ofKinds, hkind]
  | rejected hslash _ ih =>
      have hkind := ExclusionKind.ofText_eq_invalid_iff.mpr ⟨hslash, rfl⟩
      simp [ih, compile, ofKinds, hkind]

/-- No pattern lands in two places. -/
theorem lands_iff {e : Exclusion} : Lands patterns e ↔ e = compile patterns := by
  constructor
  · exact Lands.eq_compile
  · rintro rfl
    exact lands_compile patterns

theorem compile_append (front back : List (Option String)) :
    compile (front ++ back) =
      ⟨(compile front).filenames ++ (compile back).filenames,
        (compile front).directories ++ (compile back).directories,
        (compile front).rejected ++ (compile back).rejected⟩ := by
  simp [compile, ofKinds]

theorem compile_of_misplaced {p : Option String} (hslash : MisplacesSlash (p.getD "")) :
    compile [p] = ⟨[], [], [trimString (p.getD "")]⟩ := by
  have hkind := ExclusionKind.ofText_eq_invalid_iff.mpr ⟨hslash, rfl⟩
  simp [compile, ofKinds, hkind]

/-- A pattern with a misplaced slash is reported, and otherwise might be missing. -/
theorem compile_misplaced {p : Option String} (hslash : MisplacesSlash (p.getD ""))
    (front back : List (Option String)) :
    compile (front ++ p :: back) = { compile (front ++ back) with
      rejected := (compile front).rejected ++ trimString (p.getD "") :: (compile back).rejected } := by
  rw [← List.singleton_append, compile_append, compile_append, compile_append,
    compile_of_misplaced hslash]
  simp

/-! ## Names -/

theorem check_filenameCondition (hpatterns : ∀ p ∈ patterns, ∀ text ∈ p, ZeroFree text)
    (hname : ZeroFree name) (hshort : (compile patterns).filenameCondition.HasShortPatterns) :
    ∃ kept, (compile patterns).filenameCondition.check (some name) = .ok kept ∧
      (kept = true ↔ ∀ p ∈ patterns, ∀ glob, NamesFile (p.getD "") glob →
        ¬ Glob.Matches glob.toList name.toList) := by
  have hglobs : ∀ glob ∈ (compile patterns).filenames, ZeroFree glob :=
    fun glob hglob => zeroFree_of_mem_compile hpatterns (Or.inl hglob)
  refine ⟨_, Condition.check_eq hshort _, ?_⟩
  rw [filenameCondition_holds_iff hglobs hname]
  simp only [mem_filenames_compile]
  constructor
  · intro hnone p hp glob hnames
    exact hnone glob ⟨p, hp, hnames⟩
  · rintro hnone glob ⟨p, hp, hnames⟩
    exact hnone p hp glob hnames

theorem clause_filenameCondition (e : Exclusion) (column : String) :
    e.filenameCondition.clause column =
      " AND ".intercalate (e.filenames.map fun _ => column ++ " NOT LIKE ? ESCAPE '\\'") := by
  rw [filenameCondition, Condition.clause, List.map_map]
  rfl

theorem clause_eq_empty_iff (e : Exclusion) (column : String) :
    e.filenameCondition.clause column = "" ↔ e.filenames = [] := by
  rw [clause_filenameCondition]
  cases hfilenames : e.filenames with
  | nil => simp
  | cons glob globs => cases globs <;> simp

/-- What is asked about a column for the filename patterns of a list, and which names are kept. -/
structure KeepsUnmatched (patterns : List (Option String)) (column name : String) : Prop where
  lands : ∀ e, Lands patterns e ↔ e = compile patterns
  /-- What has a misplaced slash might as well be missing. -/
  misplaced : ∀ front p back, patterns = front ++ p :: back → MisplacesSlash (p.getD "") →
    (compile patterns).filenameCondition = (compile (front ++ back)).filenameCondition ∧
    (compile patterns).directoryCondition = (compile (front ++ back)).directoryCondition
  clause : (compile patterns).filenameCondition.clause column = " AND ".intercalate
    ((compile patterns).filenames.map fun _ => column ++ " NOT LIKE ? ESCAPE '\\'")
  applies : (compile patterns).filenameCondition.clause column ≠ "" ↔
    ∃ p ∈ patterns, ∃ glob, NamesFile (p.getD "") glob
  parameters : (compile patterns).filenameCondition.parameters = (compile patterns).filenames.map
    fun glob => String.ofList (replaceAll Glob.replacements glob.toList)
  check : ∃ kept, (compile patterns).filenameCondition.check (some name) = .ok kept ∧
    (kept = true ↔ ∀ p ∈ patterns, ∀ glob, NamesFile (p.getD "") glob →
      ¬ Glob.Matches glob.toList name.toList)
  /-- Beside a star or not, characters stand for themselves, and only letters for another case. -/
  literal : ∀ plain rest s, '*' ∉ plain → (Glob.Matches (plain ++ rest) s ↔
      ∃ s₁ s₂, s = s₁ ++ s₂ ∧ List.Forall₂ StandsFor plain s₁ ∧ Glob.Matches rest s₂)
  exact : ∀ c, c.isAlpha = false → ∀ d, StandsFor c d ↔ d = c

/-- Filename patterns keep the names that none of their globs matches. -/
theorem keepsUnmatched (column : String) (hpatterns : ∀ p ∈ patterns, ∀ text ∈ p, ZeroFree text)
    (hname : ZeroFree name) (hshort : (compile patterns).filenameCondition.HasShortPatterns) :
    KeepsUnmatched patterns column name where
  lands := fun _ => lands_iff
  misplaced := by
    rintro front p back rfl hslash
    rw [compile_misplaced hslash front back]
    exact ⟨rfl, rfl⟩
  clause := clause_filenameCondition _ column
  applies := by
    rw [ne_eq, clause_eq_empty_iff]
    constructor
    · intro hne
      obtain ⟨glob, hglob⟩ := List.exists_mem_of_ne_nil _ hne
      obtain ⟨p, hp, hnames⟩ := mem_filenames_compile.mp hglob
      exact ⟨p, hp, glob, hnames⟩
    · rintro ⟨p, hp, glob, hnames⟩
      exact List.ne_nil_of_mem (mem_filenames_compile.mpr ⟨p, hp, hnames⟩)
  parameters := by
    simp only [Glob.replaceAll_eq_toPattern, filenameCondition, Condition.parameters, List.map_map]
    rfl
  check := check_filenameCondition hpatterns hname hshort
  literal := fun _ _ _ hplain => Glob.matches_literal hplain
  exact := fun _ hc _ => standsFor_iff_eq hc

/-- A backslash between two stars, and both wildcards of the query engine. -/
theorem keepsUnmatched_wildcards :
    (∀ p ∈ [some "*\\*%_.x ", some "a/b", some "Tmp/"], ∀ text ∈ p, ZeroFree text) ∧
    ZeroFree "q\\y%_.X" ∧
    (compile
      [some "*\\*%_.x ", some "a/b", some "Tmp/"]).filenameCondition.HasShortPatterns ∧
    compile [some "*\\*%_.x ", some "a/b", some "Tmp/"] = ⟨["*\\*%_.x"], ["Tmp"], ["a/b"]⟩ ∧
    (compile [some "*\\*%_.x ", some "a/b", some "Tmp/"]).filenameCondition.check
      (some "q\\y%_.X") = .ok false ∧
    KeepsUnmatched [some "*\\*%_.x ", some "a/b", some "Tmp/"] "name" "q\\y%_.X" := by
  have hpatterns : ∀ p ∈ [some "*\\*%_.x ", some "a/b", some "Tmp/"], ∀ text ∈ p,
      ZeroFree text := by
    decide +kernel
  have hname : ZeroFree "q\\y%_.X" := by decide +kernel
  have hshort : (compile
      [some "*\\*%_.x ", some "a/b", some "Tmp/"]).filenameCondition.HasShortPatterns := by
    decide +kernel
  exact ⟨hpatterns, hname, hshort, by decide +kernel, by decide +kernel,
    keepsUnmatched "name" hpatterns hname hshort⟩

end Exclusion

end DiskCatalog.Pattern
