import Mathlib.Tactic
import DiskCatalog.Binary64.Reading

/-!
# Blank numerals

Written in ASCII, a blank text has spaces and control characters only.  None of them may stand in a
numeral, so a blank text is read as no integer and as no number.
-/

namespace DiskCatalog

namespace Text

variable {c : Char} {s : List Char}

/-- Nothing but spaces and control characters. -/
def IsBare (s : List Char) : Prop :=
  ∀ c ∈ s, c.toNat ≤ 32

theorem toNat_plainChar_le (hc : isBlank c) : (plainChar c).toNat ≤ 32 := by
  unfold plainChar
  split_ifs with hascii
  · simp [isBlank, inRanges, blankRanges] at hc
    omega
  · decide

theorem isBare_trimNumeral (hs : ∀ c ∈ s, isBlank c) : IsBare (trimNumeral (s.map plainChar)) := by
  intro c hc
  have hmem : c ∈ s.map plainChar :=
    List.dropWhile_subset _ (List.mem_reverse.mp
      (List.dropWhile_subset _ (List.mem_reverse.mp hc)))
  obtain ⟨d, hd, rfl⟩ := List.mem_map.mp hmem
  exact toNat_plainChar_le (hs d hd)

namespace IsBare

theorem ne_of_mem (hs : IsBare s) {d : Char} (hd : 32 < d.toNat) (hc : c ∈ s) : c ≠ d := by
  rintro rfl
  exact absurd (hs c hc) (by omega)

theorem asciiDigit?_eq_none (hs : IsBare s) (hc : c ∈ s) : asciiDigit? c = none := by
  have hrange : '0' ≤ c ↔ 48 ≤ c.toNat := Iff.rfl
  have hle := hs c hc
  unfold asciiDigit?
  rw [if_neg]
  rw [hrange]
  omega

theorem splitSign_eq (hs : IsBare s) : splitSign s = (false, s) := by
  unfold splitSign
  split
  · exact absurd rfl (hs.ne_of_mem (d := '-') (by decide) List.mem_cons_self)
  · exact absurd rfl (hs.ne_of_mem (d := '+') (by decide) List.mem_cons_self)
  · rfl

theorem digitRun_eq (hs : IsBare s) : digitRun false s = some ([], s) := by
  cases s with
  | nil => rfl
  | cons c s =>
      have hc : c ∈ c :: s := List.mem_cons_self
      have hunderscore : c ≠ '_' := hs.ne_of_mem (by decide) hc
      simp only [digitRun, hs.asciiDigit?_eq_none hc, hunderscore, ne_eq, not_false_eq_true,
        if_true]

end IsBare

theorem readInt_of_blank (hs : ∀ c ∈ s, isBlank c) : readInt s = .error .malformed := by
  have hbare := isBare_trimNumeral hs
  simp only [readInt, hbare.splitSign_eq, hbare.digitRun_eq]

end Text

namespace Binary64

open Text

variable {s : List Char}

theorem dropUnderscores_of_isBare (hs : IsBare s) (afterDigit : Bool) :
    dropUnderscores afterDigit s = some s := by
  induction s generalizing afterDigit with
  | nil => rfl
  | cons c s ih =>
      have hunderscore : c ≠ '_' := hs.ne_of_mem (by decide) List.mem_cons_self
      have hrest : IsBare s := fun d hd => hs d (List.mem_cons_of_mem c hd)
      simp only [dropUnderscores, hunderscore, ne_eq, not_false_eq_true, if_true, ih hrest,
        Option.map_some]

theorem leadingDigits_of_isBare (hs : IsBare s) : leadingDigits s = ([], s) := by
  cases s with
  | nil => rfl
  | cons c s =>
      have hdigit : isAsciiDigit c = false := by
        rw [isAsciiDigit, hs.asciiDigit?_eq_none List.mem_cons_self]
        rfl
      simp only [leadingDigits, List.takeWhile_cons, List.dropWhile_cons, hdigit,
        Bool.false_eq_true, if_false, List.filterMap_nil]

theorem readDecimal_of_isBare (hs : IsBare s) (negative : Bool) :
    readDecimal negative s = none := by
  cases s with
  | nil => rfl
  | cons c s =>
      have hpoint : c ≠ '.' := hs.ne_of_mem (by decide) List.mem_cons_self
      simp [readDecimal, leadingDigits_of_isBare hs, hpoint]

theorem map_foldAscii_of_isBare (hs : IsBare s) : s.map foldAscii = s := by
  refine (List.map_congr_left fun c hc => ?_).trans s.map_id
  have hrange : 'A' ≤ c ↔ 65 ≤ c.toNat := Iff.rfl
  have hle := hs c hc
  have hletter : ¬ ('A' ≤ c ∧ c ≤ 'Z') := by
    rw [hrange]
    omega
  rw [foldAscii, if_neg hletter, id]

theorem read?_of_blank (hs : ∀ c ∈ s, isBlank c) : read? s = none := by
  have hbare := isBare_trimNumeral hs
  have hword : ∀ word : List Char, 'i' ∈ word ∨ 'n' ∈ word →
      trimNumeral (s.map plainChar) ≠ word := by
    rintro word (hmem | hmem) rfl
    · exact hbare.ne_of_mem (by decide) hmem rfl
    · exact hbare.ne_of_mem (by decide) hmem rfl
  simp only [read?, dropUnderscores_of_isBare hbare, hbare.splitSign_eq,
    map_foldAscii_of_isBare hbare, readDecimal_of_isBare hbare]
  rw [if_neg, if_neg]
  · exact hword _ (by simp)
  · rintro (heq | heq)
    · exact hword _ (by simp) heq
    · exact hword _ (by simp) heq

end Binary64

end DiskCatalog
