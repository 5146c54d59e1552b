import Mathlib.Tactic
import Mathlib.Data.List.TakeWhile
import DiskCatalog.Text.Blank

/-!
# Trimming, words and pieces

A text is its trimmed form between blanks, and that form has no blank at either end.  Words are the
parts between blanks that are not empty, and pieces the parts between separators.
-/

namespace DiskCatalog.Text

variable {c : Char} {s t : List Char}

/-! ## Trimming -/

/-- A text has no blank at either end. -/
structure IsTrimmed (s : List Char) : Prop where
  head : ∀ c ∈ s.head?, isBlank c = false
  last : ∀ c ∈ s.getLast?, isBlank c = false

theorem trimLeft_eq_append (s : List Char) :
    ∃ back, trimLeft s = trim s ++ back ∧ ∀ c ∈ back, isBlank c := by
  refine ⟨((trimLeft s).reverse.takeWhile isBlank).reverse, ?_, ?_⟩
  · rw [trim, trimRight, ← List.reverse_append, List.takeWhile_append_dropWhile,
      List.reverse_reverse]
  · intro c hc
    exact List.mem_takeWhile_imp (List.mem_reverse.mp hc)

theorem eq_append_trim (s : List Char) :
    ∃ front back, s = front ++ trim s ++ back ∧
      (∀ c ∈ front, isBlank c) ∧ ∀ c ∈ back, isBlank c := by
  obtain ⟨back, hleft, hback⟩ := trimLeft_eq_append s
  refine ⟨s.takeWhile isBlank, back, ?_, fun c hc => List.mem_takeWhile_imp hc, hback⟩
  rw [List.append_assoc, ← hleft, trimLeft, List.takeWhile_append_dropWhile]

theorem head?_dropWhile_of_mem {p : Char → Bool} (hc : c ∈ (s.dropWhile p).head?) :
    p c = false := by
  have hfirst := List.head?_dropWhile_not p s
  rwa [Option.mem_def.mp hc] at hfirst

theorem isTrimmed_trim (s : List Char) : IsTrimmed (trim s) where
  head := by
    intro c hc
    obtain ⟨back, hleft, -⟩ := trimLeft_eq_append s
    have hfirst : c ∈ (trimLeft s).head? := by
      rw [hleft, List.head?_append, Option.mem_def.mp hc]
      rfl
    exact head?_dropWhile_of_mem hfirst
  last := by
    intro c hc
    rw [trim, trimRight, List.getLast?_reverse] at hc
    exact head?_dropWhile_of_mem hc

theorem dropWhile_append_of_head {p : Char → Bool} {front : List Char}
    (hfront : ∀ c ∈ front, p c) (hs : ∀ c ∈ s.head?, p c = false) :
    (front ++ s).dropWhile p = s := by
  rw [List.dropWhile_append_of_pos hfront]
  cases s with
  | nil => rfl
  | cons c s => exact List.dropWhile_cons_of_neg (by simp [hs c rfl])

/-- The trimmed part of a text is the only one. -/
theorem IsTrimmed.trim_append (hs : IsTrimmed s) {front back : List Char}
    (hfront : ∀ c ∈ front, isBlank c) (hback : ∀ c ∈ back, isBlank c) :
    trim (front ++ s ++ back) = s := by
  by_cases hnil : s = []
  · have hblank : ∀ c ∈ front ++ s ++ back, isBlank c := by
      intro c hc
      rw [hnil, List.append_nil, List.mem_append] at hc
      exact hc.elim (hfront c) (hback c)
    rw [trim, trimLeft, List.dropWhile_eq_nil_iff.mpr hblank, hnil]
    rfl
  · have hhead : ∀ c ∈ (s ++ back).head?, isBlank c = false := by
      rw [List.head?_append_of_ne_nil s hnil]
      exact hs.head
    have hleft : trimLeft (front ++ s ++ back) = s ++ back := by
      rw [List.append_assoc]
      exact dropWhile_append_of_head hfront hhead
    have hlast : ∀ c ∈ s.reverse.head?, isBlank c = false := by
      rw [List.head?_reverse]
      exact hs.last
    rw [trim, hleft, trimRight, List.reverse_append, dropWhile_append_of_head (by simpa) hlast,
      List.reverse_reverse]

theorem IsTrimmed.trim_eq (hs : IsTrimmed s) : trim s = s := by
  have hnone : ∀ c ∈ ([] : List Char), isBlank c := List.forall_mem_nil _
  simpa using hs.trim_append hnone hnone

theorem trim_trim (s : List Char) : trim (trim s) = trim s :=
  (isTrimmed_trim s).trim_eq

theorem trim_eq_nil_iff {s : List Char} : trim s = [] ↔ ∀ c ∈ s, isBlank c := by
  rw [trim, trimRight, List.reverse_eq_nil_iff, List.dropWhile_eq_nil_iff, trimLeft]
  constructor
  · intro hblank
    by_contra hnot
    have hne : s.dropWhile isBlank ≠ [] := by
      rwa [ne_eq, List.dropWhile_eq_nil_iff]
    have hfirst := List.head_dropWhile_not isBlank hne
    rw [hblank _ (List.mem_reverse.mpr (List.head_mem hne))] at hfirst
    contradiction
  · intro hblank c hc
    exact hblank c (List.dropWhile_subset _ (List.mem_reverse.mp hc))

theorem trim_toList_eq_nil_iff {s : String} : trim s.toList = [] ↔ isBlankString s := by
  rw [trim_eq_nil_iff, isBlankString, List.all_eq_true]

theorem trimString_eq_empty_iff {s : String} : trimString s = "" ↔ isBlankString s := by
  rw [trimString, String.ofList_eq_empty_iff, trim_toList_eq_nil_iff]

theorem trimString_trimString (s : String) : trimString (trimString s) = trimString s := by
  rw [trimString, trimString, String.toList_ofList, trim_trim]

theorem trim_append_blank (s : List Char) (hc : isBlank c) : trim (s ++ [c]) = trim s := by
  obtain ⟨front, back, hsplit, hfront, hback⟩ := eq_append_trim s
  have hmore : ∀ d ∈ back ++ [c], isBlank d := by
    intro d hd
    rcases List.mem_append.mp hd with hd | hd
    · exact hback d hd
    · rwa [List.mem_singleton.mp hd]
  have heq : s ++ [c] = front ++ trim s ++ (back ++ [c]) := by
    rw [← List.append_assoc, ← hsplit]
  rw [heq]
  exact (isTrimmed_trim s).trim_append hfront hmore

/-! ## Words -/

theorem words_eq_filter (s : List Char) :
    words s = (s.splitOnP isBlank).filter (· ≠ []) := by
  induction s with
  | nil => rfl
  | cons c s ih =>
      unfold words
      rw [List.splitOnP_cons_eq_if_modifyHead]
      by_cases hc : isBlank c
      · simp [hc, ih]
      · cases s with
        | nil => simp [hc]
        | cons d s =>
            rw [List.splitOnP_cons_eq_if_modifyHead] at ih ⊢
            by_cases hd : isBlank d
            · simp [hc, hd, ih]
            · obtain ⟨piece, rest, hparts⟩ :=
                List.exists_cons_of_ne_nil (List.splitOnP_ne_nil isBlank s)
              simp [hc, hd, ih, hparts]

theorem words_append_cons (s t : List Char) (hc : isBlank c) :
    words (s ++ c :: t) = words s ++ words t := by
  rw [words_eq_filter, words_eq_filter, words_eq_filter, List.splitOnP_append_cons s t hc,
    List.filter_append]

theorem words_append_blank (s : List Char) (hc : isBlank c) : words (s ++ [c]) = words s := by
  rw [words_append_cons s [] hc]
  exact List.append_nil _

theorem words_of_solid (hne : s ≠ []) (hs : ∀ c ∈ s, isBlank c = false) : words s = [s] := by
  rw [words_eq_filter, List.splitOnP_eq_singleton hs]
  simp [hne]

theorem of_mem_splitOnP {p : Char → Bool} {piece : List Char} (hpiece : piece ∈ s.splitOnP p) :
    ∀ c ∈ piece, p c = false := by
  induction s generalizing piece with
  | nil => simp_all
  | cons d s ih =>
      rw [List.splitOnP_cons_eq_if_modifyHead] at hpiece
      split at hpiece
      · rcases List.mem_cons.mp hpiece with rfl | hpiece
        · simp
        · exact ih hpiece
      · rename_i hd
        obtain ⟨first, rest, hparts⟩ := List.exists_cons_of_ne_nil (List.splitOnP_ne_nil p s)
        rw [hparts, List.modifyHead_cons] at hpiece
        rcases List.mem_cons.mp hpiece with rfl | hpiece
        · have hfirst := ih (hparts ▸ List.mem_cons_self)
          simpa [hd] using hfirst
        · exact ih (hparts ▸ List.mem_cons_of_mem first hpiece)

theorem of_mem_words {word : List Char} (hword : word ∈ words s) :
    word ≠ [] ∧ ∀ c ∈ word, isBlank c = false := by
  rw [words_eq_filter, List.mem_filter, decide_eq_true_iff] at hword
  exact ⟨hword.2, of_mem_splitOnP hword.1⟩

/-! ## Pieces -/

variable {separator : Char}

theorem pieces_eq_splitOn (separator : Char) (s : List Char) :
    pieces separator s = s.splitOn separator := by
  induction s with
  | nil => rfl
  | cons c s ih =>
      rw [pieces, List.splitOn_cons_eq_if_modifyHead, ih]
      by_cases hc : c = separator
      · simp [hc]
      · obtain ⟨piece, rest, hparts⟩ :=
          List.exists_cons_of_ne_nil (List.splitOn_ne_nil separator s)
        simp [hc, hparts]

theorem separator_notMem_of_mem_pieces {piece : List Char} (hpiece : piece ∈ pieces separator s) :
    separator ∉ piece := by
  rw [pieces_eq_splitOn, List.splitOn_eq_splitOnP] at hpiece
  intro hmem
  have hne := of_mem_splitOnP hpiece separator hmem
  simp at hne

theorem pieces_of_notMem (hs : separator ∉ s) : pieces separator s = [s] := by
  rw [pieces_eq_splitOn, List.splitOn_eq_singleton hs]

theorem pieces_append_cons (hs : separator ∉ s) (t : List Char) :
    pieces separator (s ++ separator :: t) = s :: pieces separator t := by
  rw [pieces_eq_splitOn, pieces_eq_splitOn, List.splitOn_append_cons_self_of_not_mem hs]

theorem pieces_append (hs : separator ∉ s) (t : List Char) :
    pieces separator (s ++ t) = (pieces separator t).modifyHead (s ++ ·) := by
  rw [pieces_eq_splitOn, pieces_eq_splitOn]
  induction s with
  | nil =>
      obtain ⟨piece, rest, hparts⟩ := List.exists_cons_of_ne_nil (List.splitOn_ne_nil separator t)
      simp [hparts]
  | cons c s ih =>
      rw [List.mem_cons, not_or] at hs
      have hne : (c == separator) = false := by simpa using Ne.symm hs.1
      rw [List.cons_append, List.splitOn_cons_eq_if_modifyHead, ih hs.2, hne]
      obtain ⟨piece, rest, hparts⟩ := List.exists_cons_of_ne_nil (List.splitOn_ne_nil separator t)
      simp [hparts]

end DiskCatalog.Text
