import DiskCatalog.Proofs.Pattern.Globs

/-!
# What a query finds

The pattern of a term has the characters of the term between two wildcards, each made to stand for
itself, so it matches the names that hold the term.  A query finds the names that hold all of its
terms; case counts for all but the ASCII letters.
-/

namespace DiskCatalog.Pattern

open Text

/-! ## Characters of terms -/

theorem subset_of_mem_pieces {separator : Char} {s piece : List Char}
    (hpiece : piece ∈ pieces separator s) : piece ⊆ s := by
  induction s generalizing piece with
  | nil => simp_all [pieces]
  | cons c s ih =>
      have hrest : ∀ p ∈ pieces separator s, p ⊆ c :: s :=
        fun p hp => List.subset_cons_of_subset c (ih hp)
      unfold pieces at hpiece
      split at hpiece
      · rcases List.mem_cons.mp hpiece with rfl | hpiece
        · exact List.nil_subset _
        · exact hrest piece hpiece
      · cases hsplit : pieces separator s with
        | nil => simp_all
        | cons p ps =>
            rw [hsplit] at hpiece
            rcases List.mem_cons.mp hpiece with rfl | hpiece
            · exact List.cons_subset_cons c (ih (hsplit ▸ List.mem_cons_self))
            · exact hrest piece (hsplit ▸ List.mem_cons_of_mem p hpiece)

theorem subset_of_mem_words {s word : List Char} (hword : word ∈ words s) : word ⊆ s := by
  induction s generalizing word with
  | nil => contradiction
  | cons c s ih =>
      have hrest : ∀ w ∈ words s, w ⊆ c :: s := fun w hw => List.subset_cons_of_subset c (ih hw)
      have hfirst : [c] ⊆ c :: s := List.cons_subset_cons c (List.nil_subset s)
      unfold words at hword
      split at hword
      · exact hrest word hword
      · split at hword
        · exact List.mem_singleton.mp hword ▸ hfirst
        · split at hword
          · rcases List.mem_cons.mp hword with rfl | hword
            · exact hfirst
            · exact hrest word hword
          · split at hword
            · exact List.mem_singleton.mp hword ▸ hfirst
            · rename_i heq
              rcases List.mem_cons.mp hword with rfl | hword
              · exact List.cons_subset_cons c (ih (heq ▸ List.mem_cons_self))
              · exact hrest word (heq ▸ List.mem_cons_of_mem _ hword)

namespace Query

theorem zeroFree_of_mem_termsOf {inside : Bool} {parts : List (List Char)}
    (hparts : ∀ part ∈ parts, '\x00' ∉ part) :
    ∀ term ∈ termsOf inside parts, ZeroFree term.text := by
  induction parts generalizing inside with
  | nil => simp [termsOf]
  | cons part parts ih =>
      rw [List.forall_mem_cons] at hparts
      intro term hterm
      rcases List.mem_append.mp hterm with hown | hrest
      · split at hown
        · by_cases hblank : trim part = []
          · simp [hblank] at hown
          · simp only [hblank, if_false, List.mem_singleton] at hown
            rw [hown, ZeroFree, String.toList_ofList]
            exact fun hzero => hparts.1 (mem_of_mem_trim hzero)
        · obtain ⟨word, hword, rfl⟩ := List.mem_map.mp hown
          rw [ZeroFree, String.toList_ofList]
          exact fun hzero => hparts.1 (subset_of_mem_words hword hzero)
      · exact ih hparts.2 term hrest

theorem zeroFree_of_mem_parse {text : String} (htext : ZeroFree text) :
    ∀ term ∈ parse text, ZeroFree term.text :=
  zeroFree_of_mem_termsOf fun _ hpiece hzero => htext (subset_of_mem_pieces hpiece hzero)

/-! ## Patterns of terms -/

theorem tokens_escape (s p : List Char) :
    tokens (escape s ++ p) = s.map .char ++ tokens p := by
  rw [escape]
  induction s with
  | nil => rfl
  | cons c s ih =>
      rw [List.flatMap_cons, List.append_assoc, tokens_escapeChar, ih, List.map_cons,
        List.cons_append]

/-- A text is found in another as it stands, up to the case of its letters. -/
def IsIn (text name : String) : Prop :=
  ∃ found, found <:+: name.toList ∧ List.Forall₂ StandsFor text.toList found

theorem zeroFree_substringPattern {text : String} (htext : ZeroFree text) :
    ZeroFree (substringPattern text) := by
  rw [ZeroFree, substringPattern, String.toList_ofList]
  intro hzero
  have hescape : '\x00' ∈ escape text.toList := by simpa using hzero
  obtain ⟨c, hc, hmem⟩ := List.mem_flatMap.mp hescape
  rcases mem_escapeChar hmem with heq | rfl
  · contradiction
  · exact htext hc

theorem matchesText_substringPattern {text name : String} (htext : ZeroFree text)
    (hname : ZeroFree name) : matchesText (substringPattern text) name ↔ IsIn text name := by
  have htokens : tokens (substringPattern text).toList =
      .run :: (text.toList.map .char ++ [.run]) := by
    rw [substringPattern, String.toList_ofList]
    simp [tokens, tokens_escape]
  have hany : ∀ s, Token.matches [.run] s := fun s =>
    Token.matches_run.mpr ⟨s, [], (List.append_nil s).symm, rfl⟩
  rw [matchesText_eq (zeroFree_substringPattern htext) hname, htokens, Token.matches_run]
  simp only [Token.matches_append, Token.matches_chars]
  constructor
  · rintro ⟨front, _, hsplit, found, back, rfl, hfound, -⟩
    refine ⟨found, ⟨front, back, ?_⟩, hfound⟩
    rw [hsplit, List.append_assoc]
  · rintro ⟨found, ⟨front, back, hsplit⟩, hfound⟩
    refine ⟨front, found ++ back, ?_, found, back, rfl, hfound, hany back⟩
    rw [← hsplit, List.append_assoc]

theorem condition_holds_iff {terms : List Term} {name : String}
    (hterms : ∀ term ∈ terms, ZeroFree term.text) (hname : ZeroFree name) :
    (condition terms).holds (some name) ↔ ∀ term ∈ terms, IsIn term.text name := by
  simp only [condition, Condition.holds, List.all_map, List.all_eq_true, Function.comp_apply,
    Comparison.holds, Bool.bne_false]
  exact forall₂_congr fun term hterm => matchesText_substringPattern (hterms term hterm) hname

/-! ## Finding names -/

/-- What is asked about a column for a query, and whether a name in it is found. -/
structure Finds (text column name : String) : Prop where
  clause : clause column (parse text) = if parse text = [] then "1=1" else
    " AND ".intercalate ((parse text).map fun _ => column ++ " LIKE ? ESCAPE '\\'")
  parameters : (condition (parse text)).parameters =
    (parse text).map fun term => substringPattern term.text
  check : ∃ found, (condition (parse text)).check (some name) = .ok found ∧
    (found = true ↔ ∀ term ∈ parse text, IsIn term.text name)
  /-- In a term, what is a wildcard or a backslash stands for itself alone. -/
  literal : ∀ c ∈ ['%', '_', '\\'], ∀ d, StandsFor c d ↔ d = c

/-- A query finds the names that hold all of its terms. -/
theorem finds {text name : String} (column : String) (htext : ZeroFree text)
    (hname : ZeroFree name) (hshort : (condition (parse text)).HasShortPatterns) :
    Finds text column name where
  clause := by
    simp only [Query.clause, List.isEmpty_iff, condition, Condition.clause, List.map_map]
    rfl
  parameters := by
    rw [condition, Condition.parameters, List.map_map]
    rfl
  check := ⟨_, Condition.check_eq hshort _,
    condition_holds_iff (zeroFree_of_mem_parse htext) hname⟩
  literal := by
    intro c hc d
    refine standsFor_iff_eq ?_
    simp only [List.mem_cons, List.not_mem_nil, or_false] at hc
    rcases hc with rfl | rfl | rfl <;> decide

/-- Wildcards and a backslash in a word, and a phrase. -/
theorem finds_wildcards :
    ZeroFree "100%_\\ \"a b\"" ∧ ZeroFree "x100%_\\yA b" ∧
    (condition (parse "100%_\\ \"a b\"")).HasShortPatterns ∧
    parse "100%_\\ \"a b\"" = [⟨"100%_\\", false⟩, ⟨"a b", true⟩] ∧
    (condition (parse "100%_\\ \"a b\"")).check (some "x100%_\\yA b") = .ok true ∧
    Finds "100%_\\ \"a b\"" "name" "x100%_\\yA b" := by
  have htext : ZeroFree "100%_\\ \"a b\"" := by decide +kernel
  have hname : ZeroFree "x100%_\\yA b" := by decide +kernel
  have hshort : (condition (parse "100%_\\ \"a b\"")).HasShortPatterns := by decide +kernel
  exact ⟨htext, hname, hshort, by decide +kernel, by decide +kernel,
    finds "name" htext hname hshort⟩

end Query

end DiskCatalog.Pattern
