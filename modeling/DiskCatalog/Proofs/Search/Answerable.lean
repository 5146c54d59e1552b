import DiskCatalog.Proofs.Search.Limits

/-!
# Searches that are refused

The query engine looks for the terms of a search in a name one after the other until one is missing,
so that it refuses a term that is too long only where it comes to it.  A search is refused for such
a term, for the number of its terms or for its offset.  It fails besides these only where an entry
of its page cannot be shown.
-/

namespace DiskCatalog

open Index Pattern

namespace Pattern

/-- Those of the comparisons that stand before an overlong one do not all hold. -/
def StopsShort (value : Option String) (comparisons : List Comparison) : Prop :=
  ∀ front c back, comparisons = front ++ c :: back →
    maxPatternBytes < c.pattern.utf8ByteSize → ∃ d ∈ front, d.holds value = false

theorem stopsShort_cons {value : Option String} {c : Comparison} {comparisons : List Comparison} :
    StopsShort value (c :: comparisons) ↔
      c.pattern.utf8ByteSize ≤ maxPatternBytes ∧
        (c.holds value = false ∨ StopsShort value comparisons) := by
  constructor
  · intro hstops
    refine ⟨?_, ?_⟩
    · by_contra hlong
      obtain ⟨d, hd, -⟩ := hstops [] c comparisons rfl (not_le.mp hlong)
      contradiction
    · by_cases hholds : c.holds value = false
      · exact Or.inl hholds
      · refine Or.inr ?_
        rintro front overlong back rfl hlong
        obtain ⟨d, hd, hmissing⟩ := hstops (c :: front) overlong back rfl hlong
        rcases List.mem_cons.mp hd with rfl | hd
        · contradiction
        · exact ⟨d, hd, hmissing⟩
  · rintro ⟨hshort, hrest⟩ front overlong back hsplit hlong
    -- the first comparison is no overlong one, so that it stands in front of any
    cases front with
    | nil =>
        obtain ⟨rfl, -⟩ := List.cons.inj hsplit
        omega
    | cons d front =>
        obtain ⟨rfl, rfl⟩ := List.cons.inj hsplit
        rcases hrest with hholds | hstops
        · exact ⟨c, List.mem_cons_self, hholds⟩
        · obtain ⟨d, hd, hmissing⟩ := hstops front overlong back rfl hlong
          exact ⟨d, List.mem_cons_of_mem c hd, hmissing⟩

theorem succeeds_checkAll_iff {value : Option String} {comparisons : List Comparison} :
    Succeeds (checkAll value comparisons) ↔ StopsShort value comparisons := by
  induction comparisons with
  | nil => exact iff_of_true (succeeds_ok true) (by simp [StopsShort])
  | cons c comparisons ih =>
      rw [stopsShort_cons, checkAll]
      by_cases hshort : c.pattern.utf8ByteSize ≤ maxPatternBytes
      · rw [Comparison.check_eq hshort, ok_bind]
        cases c.holds value <;> simp [hshort, ih]
      · have hrefused : c.check value = .error .patternTooComplex := if_pos (not_le.mp hshort)
        simp [hrefused, bind, Except.bind, hshort]

namespace Term

/-- A term is too long for the query engine. -/
def IsOverlong (t : Term) : Prop :=
  maxPatternBytes < (Query.substringPattern t.text).utf8ByteSize

/-- A name holds a term. -/
def IsIn (t : Term) (name : String) : Prop :=
  matchesText (Query.substringPattern t.text) name

end Term

namespace Query

theorem succeeds_check_iff {terms : List Term} {name : String} :
    Succeeds ((condition terms).check (some name)) ↔
      ∀ front t back, terms = front ++ t :: back → t.IsOverlong → ∃ u ∈ front, ¬ u.IsIn name := by
  rw [condition, Condition.check, succeeds_checkAll_iff, StopsShort]
  constructor
  · rintro hstops front t back rfl hlong
    obtain ⟨d, hd, hmissing⟩ := hstops _ _ _ List.map_append hlong
    obtain ⟨u, hu, rfl⟩ := List.mem_map.mp hd
    refine ⟨u, hu, ?_⟩
    simpa [Comparison.holds, Term.IsIn] using hmissing
  · intro hstops front c back hsplit hlong
    obtain ⟨front, rest, rfl, rfl, hrest⟩ := List.map_eq_append_iff.mp hsplit
    obtain ⟨t, back, rfl, rfl, rfl⟩ := List.map_eq_cons_iff.mp hrest
    obtain ⟨u, hu, hmissing⟩ := hstops front t back rfl hlong
    refine ⟨_, List.mem_map_of_mem hu, ?_⟩
    simpa [Comparison.holds, Term.IsIn] using hmissing

theorem depth_condition_le_iff (terms : List Term) :
    (condition terms).depth ≤ maxDepth ↔ terms.length < 1000 := by
  have hdepths : (terms.map fun t => (⟨false, substringPattern t.text⟩ : Comparison)).map
      (·.depth) = List.replicate terms.length 2 := by
    rw [List.map_map, List.eq_replicate_iff]
    simp [Comparison.depth]
  rw [condition, Condition.depth, hdepths, List.length_map]
  cases terms with
  | nil => simp [chainDepth, maxDepth]
  | cons t terms =>
      rw [List.length_cons, List.max?_replicate_of_pos, Option.getD_some, chainDepth, maxDepth] <;>
        omega

end Query

end Pattern

namespace Search

/-- The query engine does not refuse a search of some entries. -/
structure IsAccepted (query : String) (offset : Option Int) (entries : List Entry) : Prop where
  terms : (Query.parse query).length < 1000
  offset : ∀ n ∈ offset, n < twoTo 63
  /-- No name holds every term before an overlong one. -/
  unreached : ∀ e ∈ entries, ∀ front t back, Query.parse query = front ++ t :: back →
    t.IsOverlong → ∃ u ∈ front, ¬ u.IsIn e.name.read

/-- A search of some entries is accepted, and every entry of its page can be shown. -/
structure IsAnswerable (query : String) (limit offset : Option Int) (entries : List Entry) :
    Prop where
  accepted : IsAccepted query offset entries
  showable : ∀ e ∈ slice query limit offset entries, e.IsShowable

theorem WithinLimits.isAccepted {query : String} {offset : Option Int}
    (hquery : WithinLimits query offset) (entries : List Entry) :
    IsAccepted query offset entries := by
  refine ⟨(Query.depth_condition_le_iff _).mp hquery.depth,
    isStorable_clampOffset_iff.mp hquery.offset, ?_⟩
  intro e _ front t back hsplit hlong
  have hmem : Query.substringPattern t.text ∈
      (Query.condition (Query.parse query)).parameters := by
    simp [hsplit, Query.condition, Condition.parameters]
  have hshort := hquery.patterns _ hmem
  rw [Term.IsOverlong] at hlong
  omega

theorem succeeds_select_iff {condition : Condition} {entries : List Entry} :
    Succeeds (select condition entries) ↔
      ∀ e ∈ entries, Succeeds (condition.check (some e.name.read)) := by
  induction entries with
  | nil => exact iff_of_true (succeeds_ok []) (by simp)
  | cons e entries ih =>
      rw [select, succeeds_bind_iff, List.forall_mem_cons, ← ih]
      constructor
      · rintro ⟨found, hfound, hrest⟩
        obtain ⟨rest, hrest, -⟩ := succeeds_bind_iff.mp hrest
        exact ⟨⟨found, hfound⟩, rest, hrest⟩
      · rintro ⟨⟨found, hfound⟩, rest, hrest⟩
        exact ⟨found, hfound, succeeds_bind_iff.mpr ⟨rest, hrest, succeeds_ok _⟩⟩

/-- What is selected without a refusal is what the condition holds of, within the limits or not. -/
theorem select_eq_ok {condition : Condition} {entries selected : List Entry}
    (hselect : select condition entries = .ok selected) :
    selected = entries.filter fun e => condition.holds (some e.name.read) := by
  induction entries generalizing selected with
  | nil => exact (Except.ok.inj hselect).symm
  | cons e entries ih =>
      rw [select] at hselect
      obtain ⟨holds, hholds, hselect⟩ := bind_eq_ok_iff.mp hselect
      obtain ⟨rest, hrest, hselect⟩ := bind_eq_ok_iff.mp hselect
      rw [List.filter_cons, Condition.check_eq_ok hholds, ← ih hrest]
      exact (Except.ok.inj hselect).symm

theorem succeeds_page_iff (query : String) (limit offset : Option Int) (entries : List Entry) :
    Succeeds (page query limit offset entries) ↔ IsAccepted query offset entries := by
  rw [page]
  by_cases hdepth : Pattern.maxDepth < (Query.condition (Query.parse query)).depth
  · rw [if_pos hdepth]
    refine iff_of_false (not_succeeds_error _) ?_
    intro haccepted
    have hle := (Query.depth_condition_le_iff _).mpr haccepted.terms
    omega
  · by_cases hoffset : Store.isStorable (clampOffset offset)
    · have hselect : Succeeds (select (Query.condition (Query.parse query)) entries) ↔
          IsAccepted query offset entries := by
        simp only [succeeds_select_iff, Query.succeeds_check_iff]
        exact ⟨fun hunreached => ⟨(Query.depth_condition_le_iff _).mp (not_lt.mp hdepth),
          isStorable_clampOffset_iff.mp hoffset, hunreached⟩, IsAccepted.unreached⟩
      rw [if_neg hdepth, if_neg (by simp [hoffset]), succeeds_mapError, succeeds_map, find,
        if_neg hdepth, succeeds_map, hselect]
    · rw [if_neg hdepth, if_pos (by simp [hoffset])]
      refine iff_of_false (not_succeeds_error _) ?_
      intro haccepted
      exact hoffset (isStorable_clampOffset_iff.mpr haccepted.offset)

theorem page_eq_ok {query : String} {limit offset : Option Int} {entries shown : List Entry}
    (hpage : page query limit offset entries = .ok shown) :
    shown = slice query limit offset entries := by
  rw [page] at hpage
  split at hpage
  · contradiction
  split at hpage
  · contradiction
  rw [mapError_eq_ok_iff, map_eq_ok_iff, find] at hpage
  obtain ⟨ranked, hranked, rfl⟩ := hpage
  split at hranked
  · contradiction
  obtain ⟨selected, hselected, rfl⟩ := map_eq_ok_iff.mp hranked
  rw [select_eq_ok hselected]
  rfl

/-- A response shows the entries of its page. -/
theorem respond_eq_ok_iff {query : String} {limit offset : Option Int} {entries : List Entry}
    {response : Response} :
    respond query limit offset entries = .ok response ↔
      IsAccepted query offset entries ∧ response.query = query ∧
        List.Forall₂ Result.Shows response.results (slice query limit offset entries) := by
  obtain ⟨name, results⟩ := response
  rw [respond, bind_eq_ok_iff]
  simp only [bind_eq_ok_iff, Result.mapM_ofEntry_eq_ok_iff, Except.ok.injEq, Response.mk.injEq]
  constructor
  · rintro ⟨shown, hpage, _, hresults, rfl, rfl⟩
    obtain rfl := page_eq_ok hpage
    exact ⟨(succeeds_page_iff query limit offset entries).mp ⟨_, hpage⟩, rfl, hresults⟩
  · rintro ⟨haccepted, rfl, hresults⟩
    obtain ⟨shown, hpage⟩ := (succeeds_page_iff name limit offset entries).mpr haccepted
    obtain rfl := page_eq_ok hpage
    exact ⟨_, hpage, results, hresults, rfl, rfl⟩

theorem succeeds_respond_iff (query : String) (limit offset : Option Int) (entries : List Entry) :
    Succeeds (respond query limit offset entries) ↔ IsAnswerable query limit offset entries := by
  constructor
  · rintro ⟨response, hresponse⟩
    obtain ⟨haccepted, -, hresults⟩ := respond_eq_ok_iff.mp hresponse
    have hshown := Result.mapM_ofEntry_eq_ok_iff.mpr hresults
    exact ⟨haccepted, Result.succeeds_mapM_ofEntry_iff.mp ⟨response.results, hshown⟩⟩
  · rintro ⟨haccepted, hshowable⟩
    obtain ⟨results, hresults⟩ := Result.succeeds_mapM_ofEntry_iff.mpr hshowable
    exact ⟨⟨query, results⟩,
      respond_eq_ok_iff.mpr ⟨haccepted, rfl, Result.mapM_ofEntry_eq_ok_iff.mp hresults⟩⟩

/-! ## Searches within the limits -/

/-- A search is refused by the query engine or for its offset, or an entry cannot be shown. -/
theorem respond_failure (query : String) (limit offset : Option Int) (entries : List Entry) :
    FailsOnlyBy (fun f => f.kind = .operational ∨ f.kind = .overflow ∨ f.kind = .type)
      (respond query limit offset entries) := by
  rw [respond]
  refine FailsOnlyBy.bind ?_ fun shown _ => FailsOnlyBy.bind ?_ fun results _ => failsOnlyBy_ok _ _
  · rw [page]
    split
    · simp [Failure.kind]
    · split
      · simp [Failure.kind]
      · rw [failsOnlyBy_mapError_iff]
        intro fault _
        exact Or.inl rfl
  · refine failsOnlyBy_mapM (fun e => (Result.ofEntry_failure e).imp ?_) shown
    rintro _ rfl
    exact Or.inr (Or.inr rfl)

end Search

end DiskCatalog
