import DiskCatalog.Proofs.Pattern.Globs

/-!
# Whole segments

The segments of a path are what stands between its slashes.  A path lies in a directory when some of
its segments, one after the other and with the slashes between them, match the glob of the
directory.  A glob without a star matches one segment only, and what lies below a path in a
directory lies in it as well.
-/

namespace DiskCatalog.Pattern

def segments (path : List Char) : List (List Char) :=
  path.splitOn '/'

def joined (parts : List (List Char)) : List Char :=
  ['/'].intercalate parts

theorem joined_segments (path : List Char) : joined (segments path) = path :=
  List.intercalate_splitOn '/'

theorem segments_append (front back : List Char) :
    segments (front ++ '/' :: back) = segments front ++ segments back :=
  List.splitOn_append_cons_self front back

theorem joined_append {parts more : List (List Char)} (hparts : parts ≠ []) (hmore : more ≠ []) :
    joined (parts ++ more) = joined parts ++ '/' :: joined more := by
  induction parts with
  | nil => contradiction
  | cons part parts ih =>
      have hrest : parts ++ more ≠ [] := List.append_ne_nil_of_right_ne_nil parts hmore
      have hcons : joined (part :: (parts ++ more)) = part ++ ['/'] ++ joined (parts ++ more) :=
        List.intercalate_cons_of_ne_nil hrest
      rw [List.cons_append, hcons]
      by_cases hlast : parts = []
      · simp [hlast, joined]
      · have hfirst : joined (part :: parts) = part ++ ['/'] ++ joined parts :=
          List.intercalate_cons_of_ne_nil hlast
        rw [ih hlast, hfirst]
        exact (List.append_assoc ..).symm

namespace Glob

variable {glob path : List Char}

/-- Some segments of a path match a glob. -/
def MatchesRun (glob path : List Char) : Prop :=
  ∃ run, run ≠ [] ∧ run <:+: segments path ∧ Matches glob (joined run)

/-- A part of a path that slashes or its ends bound is made of whole segments. -/
theorem liesIn_iff_matchesRun : LiesIn glob path ↔ MatchesRun glob path := by
  constructor
  · rintro ⟨front, inside, back, rfl, hinside, hfront, hback⟩
    refine ⟨segments inside, List.splitOn_ne_nil _ _, ?_, by rwa [joined_segments]⟩
    have hbehind : ∃ after, segments (inside ++ back) = segments inside ++ after := by
      rcases hback with rfl | ⟨t, rfl⟩
      · exact ⟨[], by simp⟩
      · exact ⟨segments t, segments_append inside t⟩
    obtain ⟨after, hafter⟩ := hbehind
    rcases hfront with rfl | ⟨s, rfl⟩
    · exact ⟨[], after, by simp [hafter]⟩
    · have hsplit : segments (s ++ ['/'] ++ inside ++ back) =
          segments s ++ segments (inside ++ back) := by
        rw [← segments_append]
        simp
      exact ⟨segments s, after, by rw [hsplit, hafter, List.append_assoc]⟩
  · rintro ⟨run, hrun, ⟨before, after, hparts⟩, hmatches⟩
    have hpath : path = joined (before ++ (run ++ after)) := by
      rw [← List.append_assoc, hparts, joined_segments]
    have hback : ∃ back, joined (run ++ after) = joined run ++ back ∧
        (back = [] ∨ ∃ s, back = '/' :: s) := by
      by_cases hafter : after = []
      · exact ⟨[], by simp [hafter], Or.inl rfl⟩
      · exact ⟨_, joined_append hrun hafter, Or.inr ⟨_, rfl⟩⟩
    obtain ⟨back, hjoined, hback⟩ := hback
    by_cases hbefore : before = []
    · refine ⟨[], joined run, back, ?_, hmatches, Or.inl rfl, hback⟩
      rw [hpath, hbefore, List.nil_append, hjoined, List.nil_append]
    · have hrest : run ++ after ≠ [] := List.append_ne_nil_of_left_ne_nil hrun after
      refine ⟨joined before ++ ['/'], joined run, back, ?_, hmatches, Or.inr ⟨_, rfl⟩, hback⟩
      rw [hpath, joined_append hbefore hrest, hjoined]
      simp

/-! ## Globs without a star -/

theorem matches_iff_of_noStar (hplain : '*' ∉ glob) {s : List Char} :
    Matches glob s ↔ List.Forall₂ StandsFor glob s := by
  have htokens : glob.map tokenOf = glob.map .char := by
    apply List.map_congr_left
    intro c hc
    have hne : c ≠ '*' := by
      rintro rfl
      exact hplain hc
    exact if_neg hne
  rw [← matches_tokens, htokens, Token.matches_chars]

theorem noSlash_of_forall₂ {s : List Char} (hsame : List.Forall₂ StandsFor glob s)
    (hnone : '/' ∉ glob) : '/' ∉ s := by
  induction hsame with
  | nil => exact List.not_mem_nil
  | @cons c d _ _ hstands _ ih =>
      rw [List.mem_cons, not_or] at hnone ⊢
      refine ⟨?_, ih hnone.2⟩
      rintro rfl
      exact hnone.1 ((standsFor_iff_eq (by decide)).mp hstands.symm).symm

/-- Several segments have a slash between them, which a glob without a star does not match. -/
theorem matchesRun_iff_of_noStar (hplain : '*' ∉ glob) (hnone : '/' ∉ glob) :
    MatchesRun glob path ↔ ∃ segment ∈ segments path, List.Forall₂ StandsFor glob segment := by
  constructor
  · rintro ⟨run, hrun, hinfix, hmatches⟩
    rw [matches_iff_of_noStar hplain] at hmatches
    obtain ⟨segment, more, rfl⟩ := List.exists_cons_of_ne_nil hrun
    have hsegment : segment ∈ segments path := hinfix.subset List.mem_cons_self
    cases more with
    | nil =>
        rw [joined, List.intercalate_singleton] at hmatches
        exact ⟨segment, hsegment, hmatches⟩
    | cons next more =>
        have hslash := noSlash_of_forall₂ hmatches hnone
        rw [joined, List.intercalate_cons_cons] at hslash
        simp at hslash
  · rintro ⟨segment, hsegment, hsame⟩
    have hinfix : [segment] <:+: segments path := by
      obtain ⟨before, after, hparts⟩ := List.append_of_mem hsegment
      exact ⟨before, after, by simp [hparts]⟩
    refine ⟨[segment], List.cons_ne_nil segment [], hinfix, ?_⟩
    rwa [joined, List.intercalate_singleton, matches_iff_of_noStar hplain]

/-! ## Paths below a path -/

theorem MatchesRun.below (hmatches : MatchesRun glob path) (rest : List Char) :
    MatchesRun glob (path ++ '/' :: rest) := by
  obtain ⟨run, hrun, hinfix, hglob⟩ := hmatches
  refine ⟨run, hrun, ?_, hglob⟩
  rw [segments_append]
  exact hinfix.trans (List.infix_append' [] _ _)

end Glob

namespace Exclusion

variable {patterns : List (Option String)} {path : String}

/-- A path lies in a directory that one of some patterns names. -/
def LiesWithin (patterns : List (Option String)) (path : String) : Prop :=
  ∃ p ∈ patterns, ∃ glob, NamesDirectory (p.getD "") glob ∧
    Glob.MatchesRun glob.toList path.toList

theorem LiesWithin.below (hwithin : LiesWithin patterns path) (rest : String) :
    LiesWithin patterns (path ++ "/" ++ rest) := by
  obtain ⟨p, hp, glob, hnames, hmatches⟩ := hwithin
  refine ⟨p, hp, glob, hnames, ?_⟩
  have hbelow : (path ++ "/" ++ rest).toList = path.toList ++ '/' :: rest.toList := by simp
  rw [hbelow]
  exact hmatches.below rest.toList

theorem check_directoryCondition (hpatterns : ∀ p ∈ patterns, ∀ text ∈ p, ZeroFree text)
    (hpath : ZeroFree path) (hshort : (compile patterns).directoryCondition.HasShortPatterns) :
    ∃ within, (compile patterns).directoryCondition.check (some path) = .ok within ∧
      (within = true ↔ LiesWithin patterns path) := by
  refine ⟨_, Condition.check_eq hshort _, ?_⟩
  have hglobs : ∀ glob ∈ (compile patterns).directories, ZeroFree glob :=
    fun glob hglob => zeroFree_of_mem_compile hpatterns (Or.inr hglob)
  rw [directoryCondition_holds_iff hglobs hpath]
  simp only [mem_directories_compile, Glob.liesIn_iff_matchesRun, LiesWithin]
  constructor
  · rintro ⟨glob, ⟨p, hp, hnames⟩, hmatches⟩
    exact ⟨p, hp, glob, hnames, hmatches⟩
  · rintro ⟨p, hp, glob, hnames, hmatches⟩
    exact ⟨glob, ⟨p, hp, hnames⟩, hmatches⟩

/-- What the directory patterns of a list decide about a path. -/
structure DecidesBySegments (patterns : List (Option String)) (path : String) : Prop where
  check : ∃ within, (compile patterns).directoryCondition.check (some path) = .ok within ∧
    (within = true ↔ LiesWithin patterns path)
  plain : ∀ p ∈ patterns, ∀ glob, NamesDirectory (p.getD "") glob → '*' ∉ glob.toList →
    (Glob.MatchesRun glob.toList path.toList ↔
      ∃ segment ∈ segments path.toList, List.Forall₂ StandsFor glob.toList segment)
  below : ∀ rest, ZeroFree rest →
    (compile patterns).directoryCondition.check (some path) = .ok true →
      (compile patterns).directoryCondition.check (some (path ++ "/" ++ rest)) = .ok true

/-- Directory patterns decide by whole segments. -/
theorem decidesBySegments (hpatterns : ∀ p ∈ patterns, ∀ text ∈ p, ZeroFree text)
    (hpath : ZeroFree path) (hshort : (compile patterns).directoryCondition.HasShortPatterns) :
    DecidesBySegments patterns path where
  check := check_directoryCondition hpatterns hpath hshort
  plain := fun _ _ _ hnames hplain => Glob.matchesRun_iff_of_noStar hplain hnames.noSlash
  below := by
    intro rest hrest hcheck
    have hslash : ZeroFree "/" := by decide
    obtain ⟨within, hok, hiff⟩ := check_directoryCondition hpatterns hpath hshort
    obtain ⟨within', hok', hiff'⟩ := check_directoryCondition hpatterns
      ((hpath.append hslash).append hrest) hshort
    rw [hok, Except.ok.injEq] at hcheck
    rw [hok', hiff'.mpr ((hiff.mp hcheck).below rest)]

/-- A star runs over a slash, and a pattern with a slash inside it has no effect. -/
theorem decidesBySegments_across :
    (∀ p ∈ [some "a*b/", some " Tmp/* ", some "x/y"], ∀ text ∈ p, ZeroFree text) ∧
    ZeroFree "home/a1/2b/x" ∧
    (compile [some "a*b/", some " Tmp/* ", some "x/y"]).directoryCondition.HasShortPatterns ∧
    (compile [some "a*b/", some " Tmp/* ", some "x/y"]).directoryCondition.check
      (some "home/a1/2b/x") = .ok true ∧
    DecidesBySegments [some "a*b/", some " Tmp/* ", some "x/y"] "home/a1/2b/x" := by
  have hpatterns : ∀ p ∈ [some "a*b/", some " Tmp/* ", some "x/y"], ∀ text ∈ p, ZeroFree text := by
    decide +kernel
  have hpath : ZeroFree "home/a1/2b/x" := by decide +kernel
  have hshort : (compile
      [some "a*b/", some " Tmp/* ", some "x/y"]).directoryCondition.HasShortPatterns := by
    decide +kernel
  exact ⟨hpatterns, hpath, hshort, by decide +kernel, decidesBySegments hpatterns hpath hshort⟩

end Exclusion

end DiskCatalog.Pattern
