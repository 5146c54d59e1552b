import DiskCatalog.Proofs.Pattern.Terms
import DiskCatalog.Proofs.Service.SearchStatus
import DiskCatalog.Proofs.Text.Words

/-!
# Queries as they are written

Words as they are and phrases in double quotes, with blanks between them, make a query, and reading
it gives the terms back.  What is read from any text is such a row of terms, and the blanks around
the text do not count: a service, which trims a query, finds what a command line finds.
-/

namespace DiskCatalog

open Text

namespace Pattern

/-- A term that can be written down: a word has no blank, a phrase none at its ends, and neither
has a quote. -/
structure Term.IsProper (term : Term) : Prop where
  nonempty : term.text ≠ ""
  unquoted : '"' ∉ term.text.toList
  phrase : term.isPhrase = true → IsTrimmed term.text.toList
  word : term.isPhrase = false → ∀ c ∈ term.text.toList, isBlank c = false

theorem Term.IsProper.ne_nil {term : Term} (hterm : term.IsProper) : term.text.toList ≠ [] :=
  fun hnil => hterm.nonempty (String.toList_eq_nil_iff.mp hnil)

def Term.written (term : Term) : List Char :=
  if term.isPhrase then '"' :: (term.text.toList ++ ['"']) else term.text.toList

namespace Query

/-- The text of a query: its terms with single spaces between them. -/
def written (terms : List Term) : String :=
  String.ofList ([' '].intercalate (terms.map Term.written))

/-! ## Terms of a piece -/

/-- The terms of one piece that lies outside or inside quotes. -/
def termsOfPiece (inside : Bool) (piece : List Char) : List Term :=
  if inside then
    if trim piece = [] then [] else [⟨String.ofList (trim piece), true⟩]
  else (words piece).map fun word => ⟨String.ofList word, false⟩

theorem termsOf_cons (inside : Bool) (piece : List Char) (rest : List (List Char)) :
    termsOf inside (piece :: rest) = termsOfPiece inside piece ++ termsOf (!inside) rest :=
  rfl

theorem isProper_of_mem_termsOfPiece {inside : Bool} {piece : List Char} (hpiece : '"' ∉ piece)
    {term : Term} (hterm : term ∈ termsOfPiece inside piece) : term.IsProper := by
  cases inside with
  | true =>
      by_cases hblank : trim piece = []
      · simp [termsOfPiece, hblank] at hterm
      · obtain rfl : term = ⟨String.ofList (trim piece), true⟩ := by
          simpa [termsOfPiece, hblank] using hterm
        refine ⟨by simpa using hblank, ?_, ?_, by simp⟩
        · rw [String.toList_ofList]
          exact fun hquote => hpiece (mem_of_mem_trim hquote)
        · intro _
          rw [String.toList_ofList]
          exact isTrimmed_trim piece
  | false =>
      obtain ⟨word, hword, rfl⟩ := List.mem_map.mp hterm
      obtain ⟨hne, hsolid⟩ := of_mem_words hword
      refine ⟨by simpa using hne, ?_, by simp, ?_⟩
      · rw [String.toList_ofList]
        exact fun hquote => hpiece (subset_of_mem_words hword hquote)
      · intro _
        rwa [String.toList_ofList]

theorem isProper_of_mem_termsOf {inside : Bool} {parts : List (List Char)}
    (hparts : ∀ part ∈ parts, '"' ∉ part) : ∀ term ∈ termsOf inside parts, term.IsProper := by
  induction parts generalizing inside with
  | nil => simp [termsOf]
  | cons part parts ih =>
      rw [List.forall_mem_cons] at hparts
      intro term hterm
      rw [termsOf_cons, List.mem_append] at hterm
      rcases hterm with hown | hrest
      · exact isProper_of_mem_termsOfPiece hparts.1 hown
      · exact ih hparts.2 term hrest

theorem termsOfPiece_append_blank {c : Char} (hc : isBlank c) (inside : Bool) (piece : List Char) :
    termsOfPiece inside (piece ++ [c]) = termsOfPiece inside piece := by
  simp only [termsOfPiece, trim_append_blank piece hc, words_append_blank piece hc]

/-! ## Reading -/

/-- The terms of the characters of a query, from a place outside or inside quotes on. -/
def termsFrom (inside : Bool) (s : List Char) : List Term :=
  termsOf inside (pieces '"' s)

theorem parse_eq_termsFrom (text : String) : parse text = termsFrom false text.toList :=
  rfl

theorem quote_not_blank {c : Char} (hc : isBlank c) : c ≠ '"' := by
  rintro rfl
  contradiction

variable {s : List Char} {c : Char}

theorem termsFrom_of_unquoted (hs : '"' ∉ s) (inside : Bool) :
    termsFrom inside s = termsOfPiece inside s := by
  rw [termsFrom, pieces_of_notMem hs, termsOf_cons]
  exact List.append_nil _

theorem termsFrom_append_quote (hs : '"' ∉ s) (inside : Bool) (t : List Char) :
    termsFrom inside (s ++ '"' :: t) = termsOfPiece inside s ++ termsFrom (!inside) t := by
  rw [termsFrom, pieces_append_cons hs, termsOf_cons]
  rfl

theorem termsFrom_cons_quote (inside : Bool) (t : List Char) :
    termsFrom inside ('"' :: t) = termsFrom (!inside) t := by
  have hempty : termsOfPiece inside [] = [] := by cases inside <;> rfl
  have hread := termsFrom_append_quote (s := []) List.not_mem_nil inside t
  rwa [hempty] at hread

/-- A blank outside quotes ends a word. -/
theorem termsFrom_append_blank (hs : '"' ∉ s) (hc : isBlank c) (t : List Char) :
    termsFrom false (s ++ c :: t) = termsOfPiece false s ++ termsFrom false t := by
  have hfront : '"' ∉ s ++ [c] := by
    rw [List.mem_append, List.mem_singleton, not_or]
    exact ⟨hs, (quote_not_blank hc).symm⟩
  have hsplit : s ++ c :: t = s ++ [c] ++ t := by simp
  rw [termsFrom, hsplit, pieces_append hfront, termsFrom]
  obtain ⟨piece, rest, hparts⟩ : ∃ piece rest, pieces '"' t = piece :: rest := by
    rw [pieces_eq_splitOn]
    exact List.exists_cons_of_ne_nil (List.splitOn_ne_nil '"' t)
  rw [hparts, List.modifyHead_cons, termsOf_cons, termsOf_cons, ← List.append_assoc]
  congr 1
  have hjoined : s ++ [c] ++ piece = s ++ c :: piece := by simp
  simp only [termsOfPiece, hjoined, words_append_cons s piece hc]
  exact List.map_append

/-- A blank at the end is passed over, inside a quote that is not closed as well as outside. -/
theorem termsFrom_concat_blank (hc : isBlank c) (inside : Bool) (s : List Char) :
    termsFrom inside (s ++ [c]) = termsFrom inside s := by
  by_cases hquote : '"' ∈ s
  · -- what stands behind the first quote is shorter
    obtain ⟨front, back, rfl, hfront⟩ := List.eq_append_cons_of_mem hquote
    have hsplit : front ++ '"' :: back ++ [c] = front ++ '"' :: (back ++ [c]) := by simp
    rw [hsplit, termsFrom_append_quote hfront, termsFrom_append_quote hfront,
      termsFrom_concat_blank hc (!inside) back]
  · have hboth : '"' ∉ s ++ [c] := by
      rw [List.mem_append, List.mem_singleton, not_or]
      exact ⟨hquote, (quote_not_blank hc).symm⟩
    rw [termsFrom_of_unquoted hboth, termsFrom_of_unquoted hquote, termsOfPiece_append_blank hc]
termination_by s.length
decreasing_by simp_all; omega

theorem termsFrom_cons_blank (hc : isBlank c) (s : List Char) :
    termsFrom false (c :: s) = termsFrom false s :=
  termsFrom_append_blank (s := []) List.not_mem_nil hc s

theorem termsFrom_blank_append {front : List Char} (hfront : ∀ c ∈ front, isBlank c)
    (s : List Char) : termsFrom false (front ++ s) = termsFrom false s := by
  induction front with
  | nil => rfl
  | cons c front ih =>
      rw [List.forall_mem_cons] at hfront
      rw [List.cons_append, termsFrom_cons_blank hfront.1, ih hfront.2]

theorem termsFrom_append_blanks {back : List Char} (hback : ∀ c ∈ back, isBlank c) (inside : Bool)
    (s : List Char) : termsFrom inside (s ++ back) = termsFrom inside s := by
  induction back generalizing s with
  | nil => rw [List.append_nil]
  | cons c back ih =>
      rw [List.forall_mem_cons] at hback
      have hsplit : s ++ c :: back = s ++ [c] ++ back := by simp
      rw [hsplit, ih hback.2, termsFrom_concat_blank hback.1]

theorem parse_trimString (text : String) : parse (trimString text) = parse text := by
  obtain ⟨front, back, hsplit, hfront, hback⟩ := eq_append_trim text.toList
  rw [parse_eq_termsFrom, parse_eq_termsFrom, trimString, String.toList_ofList]
  conv_rhs => rw [hsplit, termsFrom_append_blanks hback, termsFrom_blank_append hfront]

theorem isProper_of_mem_parse {text : String} {term : Term} (hterm : term ∈ parse text) :
    term.IsProper :=
  isProper_of_mem_termsOf (fun _ hpart => separator_notMem_of_mem_pieces hpart) term hterm

/-! ## Writing and reading -/

/-- A term is read from its written form, and reading goes on outside quotes behind a blank. -/
theorem termsFrom_written {term : Term} (hterm : term.IsProper) :
    termsFrom false term.written = [term] ∧
      ∀ t, termsFrom false (term.written ++ ' ' :: t) = term :: termsFrom false t := by
  have hblank : isBlank ' ' := by decide
  have hquote := hterm.unquoted
  obtain ⟨text, isPhrase⟩ := term
  have hne : text.toList ≠ [] := hterm.ne_nil
  cases isPhrase with
  | true =>
      have hown : termsOfPiece true text.toList = [⟨text, true⟩] := by
        simp [termsOfPiece, (hterm.phrase rfl).trim_eq, hne]
      have hread : ∀ t, termsFrom false ('"' :: (text.toList ++ '"' :: t)) =
          ⟨text, true⟩ :: termsFrom false t := by
        intro t
        rw [termsFrom_cons_quote, Bool.not_false, termsFrom_append_quote hquote, hown]
        rfl
      refine ⟨hread [], fun t => ?_⟩
      have hwritten : Term.written ⟨text, true⟩ ++ ' ' :: t =
          '"' :: (text.toList ++ '"' :: ' ' :: t) := by
        simp [Term.written]
      rw [hwritten, hread, termsFrom_cons_blank hblank]
  | false =>
      have hown : termsOfPiece false text.toList = [⟨text, false⟩] := by
        simp [termsOfPiece, words_of_solid hne (hterm.word rfl)]
      refine ⟨(termsFrom_of_unquoted hquote false).trans hown, fun t => ?_⟩
      have hread := termsFrom_append_blank hquote hblank t
      rwa [hown] at hread

theorem parse_written {terms : List Term} (hterms : ∀ term ∈ terms, term.IsProper) :
    parse (written terms) = terms := by
  rw [parse_eq_termsFrom, written, String.toList_ofList]
  induction terms with
  | nil => rfl
  | cons term terms ih =>
      rw [List.forall_mem_cons] at hterms
      obtain ⟨hlast, hmore⟩ := termsFrom_written hterms.1
      cases terms with
      | nil =>
          rw [List.map_singleton, List.intercalate_singleton]
          exact hlast
      | cons next terms =>
          rw [List.map_cons, List.map_cons, List.intercalate_cons_cons, List.append_assoc,
            List.singleton_append, hmore, ← List.map_cons, ih hterms.2]

theorem parse_written_iff {terms : List Term} :
    parse (written terms) = terms ↔ ∀ term ∈ terms, term.IsProper := by
  constructor
  · intro hread term hterm
    rw [← hread] at hterm
    exact isProper_of_mem_parse hterm
  · exact parse_written

end Query

end Pattern

/-! ## Searching -/

namespace Search

/-- An answer that names another query than the one it was found for. -/
def Response.renamed (query : String) (r : Response) : Response :=
  { r with query }

theorem respond_trimString (query : String) (limit offset : Option Int)
    (entries : List Index.Entry) :
    respond (trimString query) limit offset entries =
      (respond query limit offset entries).map (Response.renamed (trimString query)) := by
  have hpage : page (trimString query) limit offset entries = page query limit offset entries := by
    simp only [page, Pattern.Query.parse_trimString]
  rw [respond, respond, hpage]
  cases page query limit offset entries with
  | error failure => rfl
  | ok shown =>
      simp only [ok_bind]
      cases shown.mapM Result.ofEntry <;> rfl

end Search

namespace Refresh.Coordinator

open Search

theorem answer_trimString (c : Coordinator) (query : String) (limit offset : Option Int) :
    c.answer (trimString query) limit offset =
      (c.answer query limit offset).map (Response.renamed (trimString query)) := by
  unfold answer reading
  simp only [respond_trimString]
  cases c.slot.enter with
  | error failure => rfl
  | ok entered =>
      obtain ⟨slot, index⟩ := entered
      simp only [ok_bind]
      cases slot.built[index]? with
      | none => rfl
      | some held =>
          simp only
          cases held.entries <;> rfl

/-- The blanks around a query show in the answer only as far as it names the query. -/
theorem search_trimString (c : Coordinator) (query : String) (limit offset : Option Int)
    (disk : Store.Disk) :
    c.search (trimString query) limit offset disk =
      ((c.search query limit offset disk).1,
        (c.search query limit offset disk).2.1.map (Response.renamed (trimString query)),
        (c.search query limit offset disk).2.2) := by
  unfold search refreshed
  obtain ⟨c, result, logs⟩ := c.rebuild (.check "query" false) disk
  simp only [answer_trimString]
  cases result <;> rfl

end Refresh.Coordinator

namespace Pattern.Query

/-- How terms are written, how a text is read, and what a service and a command line search for:
the service asks for the trimmed text, the command line for the text as it stands. -/
structure ReadsBack (terms : List Term) (text : String) : Prop where
  written : parse (written terms) = terms ↔ ∀ term ∈ terms, term.IsProper
  proper : ∀ term ∈ parse text, term.IsProper
  trimmed : parse (trimString text) = parse text
  asked : ∀ (r : Service.Request) (wish : Service.Wish), r.parameter? "q" = some text →
    r.wish = .ok wish → wish.query = trimString text ∧ parse wish.query = parse text
  found : ∀ (c : Refresh.Coordinator) (limit offset : Option Int) (disk : Store.Disk),
    c.search (trimString text) limit offset disk =
      ((c.search text limit offset disk).1,
        (c.search text limit offset disk).2.1.map (Search.Response.renamed (trimString text)),
        (c.search text limit offset disk).2.2)

/-- Reading is the inverse of writing, and does not depend on the blanks around a text. -/
theorem readsBack (terms : List Term) (text : String) : ReadsBack terms text where
  written := parse_written_iff
  proper := fun _ => isProper_of_mem_parse
  trimmed := parse_trimString text
  asked := by
    intro r wish hq hwish
    obtain ⟨⟨q, hq', -, hquery⟩, -, -⟩ := Service.Request.wish_eq_ok_iff.mp hwish
    obtain rfl := Option.some.inj (hq.symm.trans hq')
    rw [hquery]
    exact ⟨rfl, parse_trimString text⟩
  found := fun c limit offset disk => c.search_trimString text limit offset disk

end Pattern.Query

end DiskCatalog
