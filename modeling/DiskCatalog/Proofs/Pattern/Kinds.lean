import Mathlib.Tactic
import DiskCatalog.Pattern.Exclusion

/-!
# Kinds of exclusion patterns

The first slash of a pattern sorts it.  Without one the pattern is a filename pattern; with one at
the end, or before a last star, it names a directory, unless nothing stands before it.  So what
becomes of a list of patterns is known from the set of them.
-/

namespace DiskCatalog.Pattern

open Text

/-- A pattern that, blanks aside, is a glob for names. -/
structure NamesFile (text glob : String) : Prop where
  trimmed : trimString text = glob
  nonempty : glob ≠ ""
  noSlash : '/' ∉ glob.toList

/-- A pattern that, blanks aside, is a glob and a slash, or a slash and a star. -/
structure NamesDirectory (text glob : String) : Prop where
  trimmed : trimString text = glob ++ "/" ∨ trimString text = glob ++ "/*"
  nonempty : glob ≠ ""
  noSlash : '/' ∉ glob.toList

theorem trimString_eq_iff {text s : String} : trimString text = s ↔ trim text.toList = s.toList := by
  rw [trimString, ← String.toList_inj, String.toList_ofList]

namespace ExclusionKind

variable {text glob : String} {front back : List Char}

theorem idxOf?_first (hfront : '/' ∉ front) :
    (front ++ '/' :: back).idxOf? '/' = some front.length := by
  rw [List.idxOf?_eq_some_iff]
  refine ⟨by simp, by simp, fun j hj heq => hfront ?_⟩
  rw [List.getElem_append_left hj] at heq
  exact heq ▸ List.getElem_mem hj

theorem ofText_of_blank (hblank : trim text.toList = []) : ofText text = .blank := by
  simp [ofText, hblank]

theorem ofText_of_noSlash (hne : trim text.toList ≠ []) (hnone : '/' ∉ trim text.toList) :
    ofText text = .filename (trimString text) := by
  simp only [ofText, if_neg hne, List.idxOf?_eq_none_iff.mpr hnone]
  rfl

/-- With a slash, what stands before and behind the first one decides. -/
theorem ofText_of_split (hsplit : trim text.toList = front ++ '/' :: back)
    (hfront : '/' ∉ front) :
    ofText text = if front ≠ [] ∧ (back = [] ∨ back = ['*']) then .directory (String.ofList front)
      else .invalid (trimString text) := by
  have hlength : 0 < front.length ↔ front ≠ [] := List.length_pos_iff
  simp only [ofText, trimString, hsplit, idxOf?_first hfront, List.append_eq_nil_iff, List.cons_ne_nil,
    and_false, if_false, List.length_append, List.length_cons]
  cases back with
  | nil =>
      have hsame : (1 < front.length + (0 + 1)) ↔ front ≠ [] := by rw [← hlength]; omega
      simp [hsame]
  | cons c back =>
      cases back with
      | nil =>
          have hsame : (2 < front.length + (0 + 1 + 1)) ↔ front ≠ [] := by rw [← hlength]; omega
          simp [hsame, and_comm]
      | cons d back => simp

/-- A pattern is blank, has no slash, or has a first one. -/
theorem cases_text (text : String) :
    trim text.toList = [] ∨ (trim text.toList ≠ [] ∧ '/' ∉ trim text.toList) ∨
      ∃ front back, trim text.toList = front ++ '/' :: back ∧ '/' ∉ front := by
  by_cases hblank : trim text.toList = []
  · exact Or.inl hblank
  · by_cases hslash : '/' ∈ trim text.toList
    · exact Or.inr (Or.inr (List.eq_append_cons_of_mem hslash))
    · exact Or.inr (Or.inl ⟨hblank, hslash⟩)

theorem ofText_eq_filename_iff : ofText text = .filename glob ↔ NamesFile text glob := by
  constructor
  · intro hkind
    rcases cases_text text with hblank | ⟨hne, hnone⟩ | ⟨front, back, hsplit, hfront⟩
    · rw [ofText_of_blank hblank] at hkind
      contradiction
    · rw [ofText_of_noSlash hne hnone, filename.injEq] at hkind
      rw [trimString_eq_iff] at hkind
      refine ⟨trimString_eq_iff.mpr hkind, ?_, hkind ▸ hnone⟩
      rintro rfl
      exact hne hkind
    · rw [ofText_of_split hsplit hfront] at hkind
      split at hkind <;> contradiction
  · rintro ⟨htrim, hne, hnone⟩
    rw [trimString_eq_iff] at htrim
    have hne' : trim text.toList ≠ [] := by
      rw [htrim]
      exact fun hnil => hne (String.toList_eq_nil_iff.mp hnil)
    rw [ofText_of_noSlash hne' (htrim ▸ hnone), trimString_eq_iff.mpr htrim]

theorem ofText_eq_directory_iff : ofText text = .directory glob ↔ NamesDirectory text glob := by
  constructor
  · intro hkind
    rcases cases_text text with hblank | ⟨hne, hnone⟩ | ⟨front, back, hsplit, hfront⟩
    · rw [ofText_of_blank hblank] at hkind
      contradiction
    · rw [ofText_of_noSlash hne hnone] at hkind
      contradiction
    · rw [ofText_of_split hsplit hfront] at hkind
      split at hkind
      case isFalse => contradiction
      case isTrue hparts =>
        obtain ⟨hne, hback⟩ := hparts
        obtain rfl := directory.inj hkind
        refine ⟨?_, by simpa using hne, by simpa using hfront⟩
        rw [trimString_eq_iff, trimString_eq_iff, hsplit]
        rcases hback with rfl | rfl
        · exact Or.inl (by simp)
        · exact Or.inr (by simp)
  · rintro ⟨htrim, hne, hnone⟩
    have hfront : glob.toList ≠ [] := fun hnil => hne (String.toList_eq_nil_iff.mp hnil)
    rw [trimString_eq_iff, trimString_eq_iff] at htrim
    have hsplit : ∃ back, trim text.toList = glob.toList ++ '/' :: back ∧
        (back = [] ∨ back = ['*']) := by
      rcases htrim with htrim | htrim
      · exact ⟨[], by simpa using htrim, Or.inl rfl⟩
      · exact ⟨['*'], by simpa using htrim, Or.inr rfl⟩
    obtain ⟨back, hsplit, hback⟩ := hsplit
    rw [ofText_of_split hsplit hnone, if_pos ⟨hfront, hback⟩, String.ofList_toList]

end ExclusionKind

/-! ## A star behind the slash -/

/-- Blanks aside, two patterns are the same, or one is the other with a star behind its slash. -/
def NamesAlike (text text' : String) : Prop :=
  trimString text = trimString text' ∨
    ∃ d, trimString text = d ++ "/" ∧ trimString text' = d ++ "/*" ∨
      trimString text = d ++ "/*" ∧ trimString text' = d ++ "/"

namespace NamesAlike

variable {text text' glob : String}

theorem symm (halike : NamesAlike text text') : NamesAlike text' text := by
  rcases halike with hsame | ⟨d, hslash | hstar⟩
  · exact Or.inl hsame.symm
  · exact Or.inr ⟨d, Or.inr hslash.symm⟩
  · exact Or.inr ⟨d, Or.inl hstar.symm⟩

theorem slash_ne_star (d d' : String) : d ++ "/" ≠ d' ++ "/*" := by
  intro heq
  have hlast := congrArg (fun s => s.toList.getLast?) heq
  simp at hlast

theorem mem_slash (d : String) : '/' ∈ (d ++ "/").toList ∧ '/' ∈ (d ++ "/*").toList := by
  simp

theorem file (halike : NamesAlike text text') (hnames : NamesFile text glob) :
    NamesFile text' glob := by
  obtain ⟨htrim, hne, hnone⟩ := hnames
  rcases halike with hsame | ⟨d, ⟨hslash, -⟩ | ⟨hstar, -⟩⟩
  · exact ⟨hsame.symm.trans htrim, hne, hnone⟩
  · rw [← htrim, hslash] at hnone
    exact absurd (mem_slash d).1 hnone
  · rw [← htrim, hstar] at hnone
    exact absurd (mem_slash d).2 hnone

theorem directory (halike : NamesAlike text text') (hnames : NamesDirectory text glob) :
    NamesDirectory text' glob := by
  obtain ⟨htrim, hne, hnone⟩ := hnames
  refine ⟨?_, hne, hnone⟩
  rcases halike with hsame | ⟨d, ⟨hslash, hother⟩ | ⟨hstar, hother⟩⟩
  · rwa [hsame] at htrim
  · rw [hslash] at htrim
    obtain rfl := (String.append_left_inj _).mp (htrim.resolve_right (slash_ne_star _ _))
    exact Or.inr hother
  · rw [hstar] at htrim
    obtain rfl := (String.append_left_inj _).mp
      (htrim.resolve_left fun heq => slash_ne_star _ _ heq.symm)
    exact Or.inl hother

theorem trim_append {front back : List Char} (hne : back ≠ []) (hleft : trimLeft back = back)
    (hright : trimRight back = back) : trim (front ++ back) = trimLeft front ++ back := by
  have hfront : trimLeft (front ++ back) = trimLeft front ++ back := by
    rw [trimLeft, List.dropWhile_append]
    split
    · rename_i hblank
      rw [trimLeft, List.isEmpty_iff.mp hblank]
      exact hleft
    · rfl
  have hreverse : back.reverse.dropWhile isBlank = back.reverse := by
    rw [← List.reverse_inj, List.reverse_reverse]
    exact hright
  rw [trim, hfront, trimRight, List.reverse_append, List.dropWhile_append, hreverse, if_neg]
  · rw [List.reverse_append, List.reverse_reverse, List.reverse_reverse]
  · simpa using hne

/-- A star may be put behind the slash at the end of a pattern. -/
theorem slash_star (d : String) : NamesAlike (d ++ "/") (d ++ "/*") := by
  refine Or.inr ⟨String.ofList (trimLeft d.toList), Or.inl ⟨?_, ?_⟩⟩
  · rw [trimString_eq_iff, String.toList_append, trim_append (by decide) (by decide) (by decide)]
    simp
  · rw [trimString_eq_iff, String.toList_append, trim_append (by decide) (by decide) (by decide)]
    simp

end NamesAlike

namespace Exclusion

variable {patterns : List (Option String)} {glob : String}

theorem mem_filenames_compile :
    glob ∈ (compile patterns).filenames ↔ ∃ p ∈ patterns, NamesFile (p.getD "") glob := by
  simp only [compile, ofKinds, List.filterMap_map, List.mem_filterMap, Function.comp_apply]
  refine exists_congr fun p => and_congr_right fun _ => ?_
  rw [← ExclusionKind.ofText_eq_filename_iff]
  cases ExclusionKind.ofText (p.getD "") <;> simp

theorem mem_directories_compile :
    glob ∈ (compile patterns).directories ↔ ∃ p ∈ patterns, NamesDirectory (p.getD "") glob := by
  simp only [compile, ofKinds, List.filterMap_map, List.mem_filterMap, Function.comp_apply]
  refine exists_congr fun p => and_congr_right fun _ => ?_
  rw [← ExclusionKind.ofText_eq_directory_iff]
  cases ExclusionKind.ofText (p.getD "") <;> simp

end Exclusion

end DiskCatalog.Pattern
