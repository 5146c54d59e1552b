import Mathlib.Data.List.TakeWhile
import DiskCatalog.Proofs.Pattern.Kinds
import DiskCatalog.Proofs.Pattern.Limits

/-!
# What exclusion patterns match

In a glob a star matches any run of characters and any other character itself, up to the case of
ASCII letters.  A path lies in a directory when a part of it that is bounded by slashes or by the
ends of the path matches the glob of the directory.  The patterns that are made of globs for the
query engine decide just that, for texts without a character zero.
-/

namespace DiskCatalog.Pattern

open Text

/-! ## Tokens -/

theorem mem_suffixes {s t : List Char} : t ∈ suffixes s ↔ ∃ run, s = run ++ t := by
  induction s with
  | nil => simp [suffixes, eq_comm]
  | cons c s ih =>
      rw [suffixes, List.mem_cons, ih]
      constructor
      · rintro (rfl | ⟨run, rfl⟩)
        · exact ⟨[], rfl⟩
        · exact ⟨c :: run, rfl⟩
      · rintro ⟨run, hrun⟩
        cases run with
        | nil => exact Or.inl hrun.symm
        | cons d run =>
            rw [List.cons_append, List.cons.injEq] at hrun
            exact Or.inr ⟨run, hrun.2⟩

namespace Token

theorem matches_run {p : List Token} {s : List Char} :
    Token.matches (.run :: p) s ↔ ∃ run t, s = run ++ t ∧ Token.matches p t := by
  simp only [Token.matches, List.any_eq_true, mem_suffixes]
  constructor
  · rintro ⟨t, ⟨run, hrun⟩, ht⟩
    exact ⟨run, t, hrun, ht⟩
  · rintro ⟨run, t, hrun, ht⟩
    exact ⟨t, ⟨run, hrun⟩, ht⟩

theorem matches_char {c : Char} {p : List Token} {s : List Char} :
    Token.matches (.char c :: p) s ↔
      ∃ d t, s = d :: t ∧ sameLetter c d ∧ Token.matches p t := by
  cases s with
  | nil => simp [Token.matches]
  | cons d s => simp [Token.matches]

theorem matches_one {p : List Token} {s : List Char} :
    Token.matches (.one :: p) s ↔ ∃ d t, s = d :: t ∧ Token.matches p t := by
  cases s with
  | nil => simp [Token.matches]
  | cons d s => simp [Token.matches]

theorem matches_append (p q : List Token) (s : List Char) :
    Token.matches (p ++ q) s ↔
      ∃ front back, s = front ++ back ∧ Token.matches p front ∧ Token.matches q back := by
  induction p generalizing s with
  | nil =>
      constructor
      · intro hs
        exact ⟨[], s, rfl, rfl, hs⟩
      · rintro ⟨front, back, rfl, hfront, hback⟩
        rw [Token.matches, List.isEmpty_iff] at hfront
        rwa [hfront]
  | cons token p ih =>
      -- the first token takes its characters off the front
      cases token with
      | run =>
          simp only [List.cons_append, matches_run, ih]
          constructor
          · rintro ⟨run, _, rfl, front, back, rfl, hfront, hback⟩
            exact ⟨run ++ front, back, (List.append_assoc ..).symm, ⟨run, front, rfl, hfront⟩, hback⟩
          · rintro ⟨_, back, rfl, ⟨run, front, rfl, hfront⟩, hback⟩
            exact ⟨run, front ++ back, List.append_assoc .., front, back, rfl, hfront, hback⟩
      | one =>
          simp only [List.cons_append, matches_one, ih]
          constructor
          · rintro ⟨d, _, rfl, front, back, rfl, hfront, hback⟩
            exact ⟨d :: front, back, rfl, ⟨d, front, rfl, hfront⟩, hback⟩
          · rintro ⟨_, back, rfl, ⟨d, front, rfl, hfront⟩, hback⟩
            exact ⟨d, front ++ back, rfl, front, back, rfl, hfront, hback⟩
      | char c =>
          simp only [List.cons_append, matches_char, ih]
          constructor
          · rintro ⟨d, _, rfl, hd, front, back, rfl, hfront, hback⟩
            exact ⟨d :: front, back, rfl, ⟨d, front, rfl, hd, hfront⟩, hback⟩
          · rintro ⟨_, back, rfl, ⟨d, front, rfl, hd, hfront⟩, hback⟩
            exact ⟨d, front ++ back, rfl, hd, front, back, rfl, hfront, hback⟩
      | never => simp [Token.matches]

end Token

/-- An escaped character stands for itself. -/
theorem tokens_escapeChar (c : Char) (p : List Char) :
    tokens (escapeChar c ++ p) = .char c :: tokens p := by
  unfold escapeChar
  by_cases hescaped : c = '\\' ∨ c = '%' ∨ c = '_'
  · simp [hescaped, tokens]
  · push Not at hescaped
    simp only [hescaped, if_false, or_self, List.singleton_append]
    rw [tokens]
    all_goals simp_all

theorem mem_escapeChar {c d : Char} (hd : d ∈ escapeChar c) : d = '\\' ∨ d = c := by
  unfold escapeChar at hd
  split at hd
  · simpa using hd
  · exact Or.inr (List.mem_singleton.mp hd)

/-! ## Letters -/

/-- The same character, or the same ASCII letter in either case. -/
def StandsFor (c d : Char) : Prop :=
  c = d ∨ c.isAlpha ∧ c.toLower = d.toLower

theorem toNat_toLower (c : Char) :
    c.toLower.toNat = if 65 ≤ c.toNat ∧ c.toNat ≤ 90 then c.toNat + 32 else c.toNat := by
  have hupper : c.val ≥ 'A'.val ∧ c.val ≤ 'Z'.val ↔ 65 ≤ c.toNat ∧ c.toNat ≤ 90 := Iff.rfl
  unfold Char.toLower
  by_cases hletter : 65 ≤ c.toNat ∧ c.toNat ≤ 90
  · have hsum : (c.val + ('a'.val - 'A'.val)).toNat = (c.toNat + 32) % 2 ^ 32 :=
      UInt32.toNat_add ..
    rw [dif_pos (hupper.mpr hletter), if_pos hletter]
    exact hsum.trans (Nat.mod_eq_of_lt (by omega))
  · rw [dif_neg (mt hupper.mp hletter), if_neg hletter]

theorem isAlpha_iff {c : Char} :
    c.isAlpha ↔ 65 ≤ c.toNat ∧ c.toNat ≤ 90 ∨ 97 ≤ c.toNat ∧ c.toNat ≤ 122 := by
  have hletter : c.isAlpha = (decide (65 ≤ c.toNat ∧ c.toNat ≤ 90) ||
      (decide (97 ≤ c.toNat) && decide (c.toNat ≤ 122))) := rfl
  rw [hletter, Bool.or_eq_true, Bool.and_eq_true, decide_eq_true_iff, decide_eq_true_iff,
    decide_eq_true_iff]

theorem foldAscii_eq (c : Char) : foldAscii c = c.toLower := by
  have hupper : 'A' ≤ c ∧ c ≤ 'Z' ↔ 65 ≤ c.toNat ∧ c.toNat ≤ 90 := Iff.rfl
  apply Char.toNat_inj.mp
  rw [toNat_toLower, foldAscii]
  by_cases hletter : 65 ≤ c.toNat ∧ c.toNat ≤ 90
  · have hvalid : (c.toNat + 32).isValidChar := Or.inl (by omega)
    have hcode : Char.ofNat (c.toNat + 32) = Char.ofNatAux (c.toNat + 32) hvalid := dif_pos hvalid
    rw [if_pos (hupper.mpr hletter), if_pos hletter, hcode]
    rfl
  · rw [if_neg (mt hupper.mp hletter), if_neg hletter]

theorem sameLetter_iff {c d : Char} : sameLetter c d ↔ StandsFor c d := by
  rw [sameLetter, decide_eq_true_iff, foldAscii_eq, foldAscii_eq, StandsFor]
  constructor
  · intro hsame
    have hcodes := congrArg Char.toNat hsame
    rw [toNat_toLower, toNat_toLower] at hcodes
    by_cases hletter : c.isAlpha
    · exact Or.inr ⟨hletter, hsame⟩
    · rw [isAlpha_iff] at hletter
      have hcode : c.toNat = d.toNat := by
        split_ifs at hcodes <;> omega
      exact Or.inl (Char.toNat_inj.mp hcode)
  · rintro (rfl | ⟨-, hsame⟩)
    · rfl
    · exact hsame

theorem StandsFor.symm {c d : Char} (hsame : StandsFor c d) : StandsFor d c := by
  rw [← sameLetter_iff, sameLetter, decide_eq_true_iff] at hsame ⊢
  exact hsame.symm

/-- What is no letter stands for itself alone. -/
theorem standsFor_iff_eq {c d : Char} (hc : c.isAlpha = false) : StandsFor c d ↔ d = c := by
  simp [StandsFor, hc, eq_comm]

theorem sameLetter_slash {d : Char} : sameLetter '/' d ↔ d = '/' := by
  rw [sameLetter_iff, standsFor_iff_eq (by decide)]

theorem Token.matches_chars {s t : List Char} :
    Token.matches (s.map .char) t ↔ List.Forall₂ StandsFor s t := by
  induction s generalizing t with
  | nil => rw [List.map_nil, Token.matches, List.isEmpty_iff, List.forall₂_nil_left_iff]
  | cons c s ih =>
      simp only [List.map_cons, Token.matches_char, List.forall₂_cons_left_iff, sameLetter_iff, ih]
      constructor
      · rintro ⟨d, t, rfl, hd, ht⟩
        exact ⟨d, t, hd, ht, rfl⟩
      · rintro ⟨d, t, hd, ht, rfl⟩
        exact ⟨d, t, rfl, hd, ht⟩

/-! ## Globs -/

namespace Glob

inductive Matches : List Char → List Char → Prop
  | nil : Matches [] []
  | star {glob s : List Char} (run : List Char) (hrest : Matches glob s) :
      Matches ('*' :: glob) (run ++ s)
  | char {glob s : List Char} {c d : Char} (hc : c ≠ '*') (hsame : sameLetter c d)
      (hrest : Matches glob s) : Matches (c :: glob) (d :: s)

/-- A part of a path between slashes, or the ends of the path, matches a glob. -/
def LiesIn (glob path : List Char) : Prop :=
  ∃ front inside back, path = front ++ inside ++ back ∧ Matches glob inside ∧
    (front = [] ∨ ∃ s, front = s ++ ['/']) ∧ (back = [] ∨ ∃ s, back = '/' :: s)

def tokenOf (c : Char) : Token :=
  if c = '*' then .run else .char c

theorem matches_tokens {glob s : List Char} :
    Token.matches (glob.map tokenOf) s ↔ Matches glob s := by
  induction glob generalizing s with
  | nil =>
      rw [List.map_nil, Token.matches, List.isEmpty_iff]
      constructor
      · rintro rfl
        exact .nil
      · intro hs
        cases hs
        rfl
  | cons c glob ih =>
      by_cases hc : c = '*'
      · subst hc
        rw [List.map_cons, tokenOf, if_pos rfl, Token.matches_run]
        simp only [ih]
        constructor
        · rintro ⟨run, t, rfl, ht⟩
          exact .star run ht
        · intro hs
          cases hs with
          | star run hrest => exact ⟨run, _, rfl, hrest⟩
          | char hne => contradiction
      · rw [List.map_cons, tokenOf, if_neg hc, Token.matches_char]
        simp only [ih]
        constructor
        · rintro ⟨d, t, rfl, hd, ht⟩
          exact .char hc hd ht
        · intro hs
          cases hs with
          | star => contradiction
          | char _ hsame hrest => exact ⟨_, _, rfl, hsame, hrest⟩

instance (glob s : List Char) : Decidable (Matches glob s) :=
  decidable_of_iff _ matches_tokens

/-- A glob that matches the empty text is made of stars, and matches every text. -/
theorem Matches.of_nil {glob : List Char} (hglob : glob ≠ []) (hmatches : Matches glob [])
    (s : List Char) : Matches glob s := by
  induction glob with
  | nil => contradiction
  | cons c glob ih =>
      generalize hempty : ([] : List Char) = empty at hmatches
      cases hmatches with
      | char hc hsame hrest => contradiction
      | star run hrest =>
          obtain ⟨-, rfl⟩ := List.append_eq_nil_iff.mp hempty.symm
          by_cases hnone : glob = []
          · rw [hnone, ← List.append_nil s]
            exact .star s .nil
          · exact .star [] (ih hnone hrest)

/-! ## Patterns made of globs -/

theorem tokens_patternChar (c : Char) (p : List Char) :
    tokens (patternChar c ++ p) = tokenOf c :: tokens p := by
  unfold patternChar tokenOf
  by_cases hstar : c = '*'
  · simp [hstar, tokens]
  · by_cases hdot : c = '.'
    · simp [hdot, tokens]
    · rw [if_neg hstar, if_neg hdot, if_neg hstar, tokens_escapeChar]

theorem tokens_toPattern (glob : String) (p : List Char) :
    tokens ((toPattern glob).toList ++ p) = glob.toList.map tokenOf ++ tokens p := by
  rw [toPattern, String.toList_ofList]
  induction glob.toList with
  | nil => rfl
  | cons c glob ih =>
      rw [List.flatMap_cons, List.append_assoc, tokens_patternChar, ih, List.map_cons,
        List.cons_append]

end Glob

/-! ## Texts without a character zero -/

def ZeroFree (s : String) : Prop :=
  '\x00' ∉ s.toList

instance (s : String) : Decidable (ZeroFree s) :=
  inferInstanceAs (Decidable ('\x00' ∉ s.toList))

theorem ZeroFree.append {s t : String} (hs : ZeroFree s) (ht : ZeroFree t) : ZeroFree (s ++ t) := by
  rw [ZeroFree, String.toList_append, List.mem_append]
  exact not_or.mpr ⟨hs, ht⟩

theorem zeroFree_intercalate {texts : List String} (htexts : ∀ t ∈ texts, ZeroFree t) :
    ZeroFree ("/".intercalate texts) := by
  induction texts with
  | nil =>
      rw [String.intercalate_nil]
      decide
  | cons t texts ih =>
      rw [List.forall_mem_cons] at htexts
      cases texts with
      | nil =>
          rw [String.intercalate_singleton]
          exact htexts.1
      | cons u texts =>
          have hslash : ZeroFree "/" := by decide
          rw [String.intercalate_cons_cons]
          exact (htexts.1.append hslash).append (ih htexts.2)

theorem untilZero_eq {s : List Char} (hs : '\x00' ∉ s) : untilZero s = s := by
  rw [untilZero, List.takeWhile_eq_self_iff]
  intro c hc
  have hne : c ≠ '\x00' := by
    rintro rfl
    exact hs hc
  simpa using hne

theorem matchesText_eq {pattern text : String} (hpattern : ZeroFree pattern)
    (htext : ZeroFree text) :
    matchesText pattern text = Token.matches (tokens pattern.toList) text.toList := by
  rw [matchesText, untilZero_eq hpattern, untilZero_eq htext]

namespace Glob

theorem zeroFree_toPattern {glob : String} (hglob : ZeroFree glob) :
    ZeroFree (toPattern glob) := by
  rw [ZeroFree, toPattern, String.toList_ofList, List.mem_flatMap]
  rintro ⟨c, hc, hzero⟩
  unfold patternChar at hzero
  split_ifs at hzero
  · simp at hzero
  · simp at hzero
  · rcases mem_escapeChar hzero with heq | rfl
    · contradiction
    · exact hglob hc

/-- The pattern of a glob matches what the glob matches. -/
theorem matchesText_toPattern {glob text : String} (hglob : ZeroFree glob)
    (htext : ZeroFree text) :
    matchesText (toPattern glob) text ↔ Matches glob.toList text.toList := by
  have htokens : tokens (toPattern glob).toList = glob.toList.map tokenOf := by
    simpa [tokens] using tokens_toPattern glob []
  rw [matchesText_eq (zeroFree_toPattern hglob) htext, htokens, matches_tokens]

theorem matches_slash_run {s : List Char} :
    Token.matches [.char '/', .run] s ↔ ∃ t, s = '/' :: t := by
  simp only [Token.matches_char, Token.matches_run, sameLetter_slash]
  constructor
  · rintro ⟨d, t, rfl, rfl, -⟩
    exact ⟨t, rfl⟩
  · rintro ⟨t, rfl⟩
    exact ⟨'/', t, rfl, rfl, t, [], (List.append_nil t).symm, rfl⟩

theorem matches_run_slash {p : List Token} {s : List Char} :
    Token.matches (.run :: .char '/' :: p) s ↔
      ∃ front t, s = front ++ '/' :: t ∧ Token.matches p t := by
  simp only [Token.matches_char, Token.matches_run, sameLetter_slash]
  constructor
  · rintro ⟨front, _, rfl, d, t, rfl, rfl, ht⟩
    exact ⟨front, t, rfl, ht⟩
  · rintro ⟨front, t, rfl, ht⟩
    exact ⟨front, '/' :: t, rfl, '/', t, rfl, rfl, ht⟩

/-- The tokens of the patterns of a directory together match the paths that lie in it. -/
theorem liesIn_iff {glob path : List Char} :
    LiesIn glob path ↔
      Token.matches (glob.map tokenOf) path ∨
      Token.matches (glob.map tokenOf ++ [.char '/', .run]) path ∨
      Token.matches (.run :: .char '/' :: glob.map tokenOf) path ∨
      Token.matches (.run :: .char '/' :: (glob.map tokenOf ++ [.char '/', .run])) path := by
  simp only [matches_run_slash, Token.matches_append, matches_slash_run, matches_tokens]
  -- on either side the part ends with the path or at a slash: one pattern for each of four cases
  constructor
  · rintro ⟨front, inside, back, rfl, hinside, rfl | ⟨s, rfl⟩, rfl | ⟨t, rfl⟩⟩
    · exact Or.inl (by simpa using hinside)
    · exact Or.inr (Or.inl ⟨inside, '/' :: t, rfl, hinside, t, rfl⟩)
    · exact Or.inr (Or.inr (Or.inl ⟨s, inside, by simp, hinside⟩))
    · exact Or.inr (Or.inr (Or.inr
        ⟨s, inside ++ '/' :: t, by simp, inside, '/' :: t, rfl, hinside, t, rfl⟩))
  · rintro (hinside | ⟨inside, _, rfl, hinside, t, rfl⟩ | ⟨s, inside, rfl, hinside⟩ |
      ⟨s, _, rfl, inside, _, rfl, hinside, t, rfl⟩)
    · exact ⟨[], path, [], by simp, hinside, Or.inl rfl, Or.inl rfl⟩
    · exact ⟨[], inside, '/' :: t, rfl, hinside, Or.inl rfl, Or.inr ⟨t, rfl⟩⟩
    · exact ⟨s ++ ['/'], inside, [], by simp, hinside, Or.inr ⟨s, rfl⟩, Or.inl rfl⟩
    · exact ⟨s ++ ['/'], inside, '/' :: t, by simp, hinside, Or.inr ⟨s, rfl⟩, Or.inr ⟨t, rfl⟩⟩

instance (glob path : List Char) : Decidable (LiesIn glob path) :=
  decidable_of_iff _ liesIn_iff.symm

/-- The patterns of a directory match the paths that lie in it. -/
theorem matchesText_directoryPatterns {glob path : String} (hglob : ZeroFree glob)
    (hpath : ZeroFree path) :
    (Exclusion.directoryPatterns glob).any (fun p => matchesText p path) ↔
      LiesIn glob.toList path.toList := by
  have hzero := zeroFree_toPattern hglob
  rw [liesIn_iff]
  simp only [Exclusion.directoryPatterns, List.any_cons, List.any_nil, Bool.or_false,
    Bool.or_eq_true]
  have hstart : ZeroFree "%/" := by decide
  have hend : ZeroFree "/%" := by decide
  rw [matchesText_eq hzero hpath, matchesText_eq (hzero.append hend) hpath,
    matchesText_eq (hstart.append hzero) hpath,
    matchesText_eq ((hstart.append hzero).append hend) hpath]
  have hslash : ∀ p : List Char, tokens ('/' :: p) = .char '/' :: tokens p :=
    tokens_patternChar '/'
  have hplain : tokens (toPattern glob).toList = glob.toList.map tokenOf := by
    simpa [tokens] using tokens_toPattern glob []
  have hfront : "%/".toList = ['%', '/'] := rfl
  have hback : "/%".toList = ['/', '%'] := rfl
  simp only [String.toList_append, hfront, hback, List.cons_append, List.nil_append, tokens, hslash,
    tokens_toPattern, hplain]

end Glob

/-! ## Compiled patterns -/

theorem mem_of_mem_trim {c : Char} {s : List Char} (hc : c ∈ trim s) : c ∈ s := by
  rw [trim, trimRight, List.mem_reverse] at hc
  have hleft := List.mem_reverse.mp ((List.dropWhile_sublist _).subset hc)
  exact (List.dropWhile_sublist _).subset hleft

namespace Exclusion

theorem zeroFree_of_mem_compile {patterns : List (Option String)} {glob : String}
    (hpatterns : ∀ p ∈ patterns, ∀ text ∈ p, ZeroFree text)
    (hglob : glob ∈ (compile patterns).filenames ∨ glob ∈ (compile patterns).directories) :
    ZeroFree glob := by
  -- a glob is the front of its pattern
  have hfront : ∃ p ∈ patterns, ∃ back, trimString (p.getD "") = glob ++ back := by
    rcases hglob with hglob | hglob
    · obtain ⟨p, hp, hnames⟩ := mem_filenames_compile.mp hglob
      exact ⟨p, hp, "", by rw [hnames.trimmed, String.append_empty]⟩
    · obtain ⟨p, hp, hnames⟩ := mem_directories_compile.mp hglob
      rcases hnames.trimmed with htrim | htrim
      · exact ⟨p, hp, _, htrim⟩
      · exact ⟨p, hp, _, htrim⟩
  obtain ⟨p, hp, back, htrim⟩ := hfront
  intro hzero
  have hmem : '\x00' ∈ (p.getD "").toList := by
    apply mem_of_mem_trim
    rw [trimString_eq_iff.mp htrim, String.toList_append]
    exact List.mem_append_left _ hzero
  cases p with
  | none => exact List.not_mem_nil hmem
  | some text => exact hpatterns _ hp text rfl hmem

theorem ne_nil_of_mem_filenames {patterns : List (Option String)} {glob : String}
    (hglob : glob ∈ (compile patterns).filenames) : glob.toList ≠ [] := by
  obtain ⟨p, -, hnames⟩ := mem_filenames_compile.mp hglob
  exact fun hnil => hnames.nonempty (String.toList_eq_nil_iff.mp hnil)

variable {e : Exclusion}

theorem filenameCondition_holds_iff {name : String} (hglobs : ∀ glob ∈ e.filenames, ZeroFree glob)
    (hname : ZeroFree name) :
    e.filenameCondition.holds (some name) ↔
      ∀ glob ∈ e.filenames, ¬ Glob.Matches glob.toList name.toList := by
  simp only [filenameCondition, Condition.holds, List.all_map, List.all_eq_true,
    Function.comp_apply, Comparison.holds, bne_iff_ne, ne_eq, Bool.not_eq_true]
  refine forall₂_congr fun glob hglob => ?_
  rw [← Glob.matchesText_toPattern (hglobs glob hglob) hname, Bool.not_eq_true]

theorem directoryCondition_holds_iff {path : String}
    (hglobs : ∀ glob ∈ e.directories, ZeroFree glob) (hpath : ZeroFree path) :
    e.directoryCondition.holds (some path) ↔
      ∃ glob ∈ e.directories, Glob.LiesIn glob.toList path.toList := by
  simp only [directoryCondition, Condition.holds, List.any_map, List.any_eq_true (l := e.directories),
    Function.comp_def, Comparison.holds, Bool.bne_false]
  refine exists_congr fun glob => and_congr_right fun hglob => ?_
  exact Glob.matchesText_directoryPatterns (hglobs glob hglob) hpath

end Exclusion

end DiskCatalog.Pattern
