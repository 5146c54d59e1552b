import DiskCatalog.Proofs.Search.Answerable
import DiskCatalog.Proofs.Search.Paging
import DiskCatalog.Proofs.Text.Words
import DiskCatalog.Service.App

/-!
# The status of a search

A request for a search is malformed when its query is blank, or when its limit or its offset is
neither empty nor a number that is not negative.  Whatever else it asks for, a service that serves a
generation of an unchanged catalog answers it, or fails because the search is refused or something
on the page asked for cannot be told.
-/

namespace DiskCatalog

open Refresh Search

/-! ## Bodies -/

/-- What a text column holds is text, or bytes that are. -/
def Store.TextCell.IsDecodable (c : TextCell) : Prop :=
  c.isText ∨ (Text.ofUtf8? c.bytes).isSome

/-- All that a result shows of an entry as it stands is text or empty, or bytes that are text. -/
structure Index.Entry.IsDecodable (e : Entry) : Prop where
  name : e.name.IsDecodable
  volumeLabel : ∀ c ∈ e.volumeLabel, c.IsDecodable
  volumeRoot : ∀ c ∈ e.volumeRoot, c.IsDecodable

namespace Service.App

open Index Store

theorem isSome_decoded?_toValue (c : TextCell) : (decoded? c.toValue).isSome ↔ c.IsDecodable := by
  cases c <;> simp [decoded?, TextCell.toValue, TextCell.IsDecodable, TextCell.isText,
    TextCell.bytes]

theorem isSome_decoded?_toValue? (content : Option TextCell) :
    (decoded? (TextCell.toValue? content)).isSome ↔ ∀ c ∈ content, c.IsDecodable := by
  cases content with
  | none => exact iff_of_true rfl (by simp)
  | some c => simp [isSome_decoded?_toValue]

/-- The place of an entry is a text unless it is the name. -/
theorem isSome_decoded?_of_shownAt {e : Entry} {path : Value} (hpath : ShownAt e path)
    (hname : e.name.IsDecodable) : (decoded? path).isSome := by
  cases hpath with
  | name => exact (isSome_decoded?_toValue e.name).mpr hname
  | root | label | path => rfl

theorem isSome_decodedResult?_iff {r : Result} {e : Entry} (hshows : r.Shows e) :
    (decodedResult? r).isSome ↔ e.IsDecodable := by
  have hparts : (decodedResult? r).isSome ↔ (decoded? r.name).isSome ∧ (decoded? r.path).isSome ∧
      (decoded? r.volumeLabel).isSome ∧ (decoded? r.volumeRoot).isSome := by
    unfold decodedResult?
    cases decoded? r.name <;> cases decoded? r.path <;> cases decoded? r.volumeLabel <;>
      cases decoded? r.volumeRoot <;> simp
  rw [hparts, hshows.name, hshows.volumeLabel, hshows.volumeRoot, isSome_decoded?_toValue,
    isSome_decoded?_toValue?, isSome_decoded?_toValue?]
  constructor
  · rintro ⟨hname, -, hlabel, hroot⟩
    exact ⟨hname, hlabel, hroot⟩
  · rintro ⟨hname, hlabel, hroot⟩
    exact ⟨hname, isSome_decoded?_of_shownAt hshows.path hname, hlabel, hroot⟩

theorem forall_isSome_decodedResult?_iff {results : List Result} {entries : List Entry}
    (hshown : List.Forall₂ Result.Shows results entries) :
    (∀ r ∈ results, (decodedResult? r).isSome) ↔ ∀ e ∈ entries, e.IsDecodable := by
  induction hshown with
  | nil => simp
  | cons hshows _ ih => simp [isSome_decodedResult?_iff hshows, ih]

theorem isSome_responseBody?_iff {response : Response} {entries : List Entry}
    (hshown : List.Forall₂ Result.Shows response.results entries) :
    (responseBody? response).isSome ↔ ∀ e ∈ entries, e.IsDecodable := by
  have hbody : (responseBody? response).isSome ↔
      (response.results.mapM decodedResult?).isSome := by
    unfold responseBody?
    cases response.results.mapM decodedResult? <;> simp
  rw [hbody, isSome_mapM_iff, forall_isSome_decodedResult?_iff hshown]

end Service.App

namespace Service

/-! ## Malformed requests -/

/-- A text asks for the number that stands between its blanks, or an empty one for none. -/
inductive AsksFor : Option String → Option Int → Prop
  | absent : AsksFor none none
  | empty : AsksFor (some "") none
  | number {text : String} {n : Int} (hne : text ≠ "")
      (hn : integerOfText (Text.trimString text) = .ok n) (hnonneg : 0 ≤ n) :
      AsksFor (some text) (some n)

/-- A text is not empty, and between its blanks stands no number that is not negative. -/
def IsNoNumber (text : String) : Prop :=
  text ≠ "" ∧ ∀ n, integerOfText (Text.trimString text) = .ok n → n < 0

theorem filter_isEmpty_of_ne {text : String} (hne : text ≠ "") :
    (some text).filter (!·.isEmpty) = some text := by
  simpa using hne

theorem wantedNumber_eq_ok_iff (name : String) {text : Option String} {n : Option Int} :
    wantedNumber name text = .ok n ↔ AsksFor text n := by
  constructor
  · intro hwanted
    cases text with
    | none =>
        obtain rfl := Except.ok.inj hwanted
        exact .absent
    | some text =>
        by_cases hne : text = ""
        · subst hne
          obtain rfl := Except.ok.inj hwanted
          exact .empty
        · cases hread : integerOfText (Text.trimString text) with
          | error fault =>
              simp [wantedNumber, filter_isEmpty_of_ne hne, hread, wantedNumber.refused] at hwanted
          | ok k =>
              simp only [wantedNumber, filter_isEmpty_of_ne hne, hread] at hwanted
              by_cases hneg : k < 0
              · simp [hneg, wantedNumber.refused] at hwanted
              · rw [if_neg hneg] at hwanted
                obtain rfl := Except.ok.inj hwanted
                exact .number hne hread (not_lt.mp hneg)
  · rintro (_ | _ | ⟨hne, hread, hnonneg⟩)
    · rfl
    · rfl
    · simp only [wantedNumber, filter_isEmpty_of_ne hne, hread, if_neg (not_lt.mpr hnonneg)]

/-- What a text asks for is understood unless the text is no number. -/
theorem exists_asksFor_iff {text : Option String} :
    (∃ n, AsksFor text n) ↔ ¬ ∃ t ∈ text, IsNoNumber t := by
  constructor
  · rintro ⟨_, _ | _ | ⟨hne, hread, hnonneg⟩⟩ ⟨t, ht, hnot, hnegative⟩
    · contradiction
    · obtain rfl := Option.some.inj ht
      contradiction
    · obtain rfl := Option.some.inj ht
      have hneg := hnegative _ hread
      omega
  · intro hnumber
    cases text with
    | none => exact ⟨none, .absent⟩
    | some text =>
        by_cases hne : text = ""
        · subst hne
          exact ⟨none, .empty⟩
        · have hread : ∃ n, integerOfText (Text.trimString text) = .ok n ∧ 0 ≤ n := by
            by_contra hnone
            push Not at hnone
            exact hnumber ⟨text, rfl, hne, hnone⟩
          obtain ⟨n, hread, hnonneg⟩ := hread
          exact ⟨some n, .number hne hread hnonneg⟩

namespace Request

/-- The query of a request is absent or blank, or its limit or its offset is no number. -/
def IsMalformed (r : Request) : Prop :=
  (∀ q ∈ r.parameter? "q", Text.isBlankString q) ∨
    ∃ name ∈ ["limit", "offset"], ∃ text ∈ r.parameter? name, IsNoNumber text

theorem wish_of_words {r : Request} {q : String} (hq : r.parameter? "q" = some q)
    (hwords : Text.trimString q ≠ "") :
    r.wish = (do
      let limit ← wantedNumber "limit" (r.parameter? "limit")
      let offset ← wantedNumber "offset" (r.parameter? "offset")
      .ok ⟨Text.trimString q, limit, offset⟩) := by
  unfold Request.wish
  rw [hq]
  split
  · simp_all
  · simp_all
  · rename_i query _ hquery
    obtain rfl := Option.some.inj hquery
    rfl

theorem wish_eq_ok_iff {r : Request} {wish : Wish} :
    r.wish = .ok wish ↔
      (∃ q ∈ r.parameter? "q", ¬ Text.isBlankString q ∧ wish.query = Text.trimString q) ∧
        AsksFor (r.parameter? "limit") wish.limit ∧
          AsksFor (r.parameter? "offset") wish.offset := by
  cases hq : r.parameter? "q" with
  | none => simp [Request.wish, hq]
  | some q =>
      by_cases hblank : Text.trimString q = ""
      · simp [Request.wish, hq, hblank, Text.trimString_eq_empty_iff.mp hblank]
      · have hwords : ¬ Text.isBlankString q := by
          rwa [← Text.trimString_eq_empty_iff]
        rw [wish_of_words hq hblank]
        simp only [bind_eq_ok_iff, wantedNumber_eq_ok_iff]
        constructor
        · rintro ⟨limit, hlimit, offset, hoffset, hwish⟩
          obtain rfl := Except.ok.inj hwish
          exact ⟨⟨q, rfl, hwords, rfl⟩, hlimit, hoffset⟩
        · rintro ⟨⟨q', hq', -, hquery⟩, hlimit, hoffset⟩
          obtain rfl := Option.some.inj hq'
          exact ⟨wish.limit, hlimit, wish.offset, hoffset, by rw [← hquery]⟩

theorem succeeds_wish_iff {r : Request} : Succeeds r.wish ↔ ¬ r.IsMalformed := by
  have hquery : (∃ q ∈ r.parameter? "q", ¬ Text.isBlankString q) ↔
      ¬ ∀ q ∈ r.parameter? "q", Text.isBlankString q := by
    push Not
    rfl
  rw [IsMalformed, not_or, ← hquery]
  simp only [List.mem_cons, List.not_mem_nil, or_false, exists_eq_or_imp, exists_eq_left, not_or,
    ← exists_asksFor_iff]
  constructor
  · rintro ⟨wish, hwish⟩
    obtain ⟨⟨q, hq, hwords, -⟩, hlimit, hoffset⟩ := wish_eq_ok_iff.mp hwish
    exact ⟨⟨q, hq, hwords⟩, ⟨_, hlimit⟩, _, hoffset⟩
  · rintro ⟨⟨q, hq, hwords⟩, ⟨limit, hlimit⟩, offset, hoffset⟩
    exact ⟨⟨Text.trimString q, limit, offset⟩,
      wish_eq_ok_iff.mpr ⟨⟨q, hq, hwords, rfl⟩, hlimit, hoffset⟩⟩

end Request

/-! ## The status of a search -/

namespace Reply

theorem status_ofResult_ok {α : Type} (body : α → Option Value) (result : α) :
    (ofResult body (.ok result)).1.status =
      if (body result).isSome then 200 else serviceError := by
  cases hbody : body result <;> simp [ofResult, ofBody, hbody, found]

theorem status_ofFailure {failure : Failure} (hkind : failure.kind ≠ .indexNotReady) :
    (ofFailure failure).1.status = serviceError := by
  rw [ofFailure, if_neg hkind]
  rfl

end Reply

namespace Wish

/-- What is wished is found among some entries and can be told. -/
structure IsGranted (wish : Wish) (entries : List Index.Entry) : Prop where
  answerable : IsAnswerable wish.query wish.limit wish.offset entries
  decodable : ∀ e ∈ slice wish.query wish.limit wish.offset entries, e.IsDecodable

variable {wish : Wish} {entries : List Index.Entry}

theorem IsGranted.status_eq (hgranted : wish.IsGranted entries) :
    (Reply.ofResult App.responseBody?
      (respond wish.query wish.limit wish.offset entries)).1.status = 200 := by
  obtain ⟨response, hresponse⟩ := (succeeds_respond_iff _ _ _ _).mpr hgranted.answerable
  obtain ⟨-, -, hshown⟩ := respond_eq_ok_iff.mp hresponse
  rw [hresponse, Reply.status_ofResult_ok,
    if_pos ((App.isSome_responseBody?_iff hshown).mpr hgranted.decodable)]

theorem status_of_not_isGranted (hgranted : ¬ wish.IsGranted entries) :
    (Reply.ofResult App.responseBody?
      (respond wish.query wish.limit wish.offset entries)).1.status = serviceError := by
  cases hresult : respond wish.query wish.limit wish.offset entries with
  | ok response =>
      obtain ⟨-, -, hshown⟩ := respond_eq_ok_iff.mp hresult
      have hanswerable := (succeeds_respond_iff _ _ _ _).mp ⟨response, hresult⟩
      have hbody : ¬ (App.responseBody? response).isSome := fun hbody =>
        hgranted ⟨hanswerable, (App.isSome_responseBody?_iff hshown).mp hbody⟩
      rw [Reply.status_ofResult_ok, if_neg hbody]
  | error failure =>
      have hkind : failure.kind ≠ .indexNotReady := by
        rcases respond_failure _ _ _ _ failure hresult with hkind | hkind | hkind <;> simp [hkind]
      exact Reply.status_ofFailure hkind

end Wish

namespace App

variable {app app' : App} {m : Moment} {r : Request} {index : Nat} {c : Coordinator}
  {g : Index.Generation} {logs : List Log.Record}

theorem handle_search (hpath : r.path = Endpoint.search.path) (hmethod : r.method = "GET") :
    app.handle m r = app.search m r := by
  have hroute : Route.ofPath r.path = .endpoint .search := by
    rw [hpath]
    decide
  have hknown : (Route.endpoint .search).methods.contains r.method := by
    rw [hmethod]
    decide
  simp only [handle, hroute, hknown, Bool.not_true, Bool.false_eq_true, if_false, answer]

theorem status_of_malformed (hmalformed : r.IsMalformed) :
    (app.search m r).2.1.status = badRequest := by
  cases hwish : r.wish with
  | error message => simp [search, hwish, Reply.error]
  | ok wish =>
      have hformed := Request.succeeds_wish_iff.mp ⟨wish, hwish⟩
      contradiction

/-- A search that is asked for is the one of the coordinator that answers. -/
theorem status_search (hanswering : app.answering m = (app', .ok (index, c), logs))
    (hserves : c.Serves g) (hsame : (c.keeper.hasChanged m.around.disk).1 = false) {wish : Wish}
    (hwish : r.wish = .ok wish) :
    (app.search m r).2.1.status =
      (Reply.ofResult responseBody?
        (respond wish.query wish.limit wish.offset g.entries)).1.status := by
  have hnow : (c.setClock m.around.utc).Serves g := hserves
  obtain ⟨-, hresult⟩ := hnow.search_eq hsame wish.query wish.limit wish.offset
  simp only [search, hwish, consult, hanswering, hresult]

/-- A request for a search, to a service that serves a generation of an unchanged catalog, is bad
exactly when it is malformed, and answered exactly when what it asks for is granted; otherwise it is
an error of the service. -/
theorem search_status (hanswering : app.answering m = (app', .ok (index, c), logs))
    (hserves : c.Serves g) (hsame : (c.keeper.hasChanged m.around.disk).1 = false)
    (hpath : r.path = Endpoint.search.path) (hmethod : r.method = "GET") :
    ((app.handle m r).2.1.status = 400 ↔ r.IsMalformed) ∧
      ((app.handle m r).2.1.status = 200 ↔ ∃ wish, r.wish = .ok wish ∧ wish.IsGranted g.entries) ∧
      ((app.handle m r).2.1.status = 500 ↔
        ∃ wish, r.wish = .ok wish ∧ ¬ wish.IsGranted g.entries) := by
  rw [handle_search hpath hmethod]
  cases hwish : r.wish with
  | error message =>
      -- a malformed request is answered before the coordinator is asked
      have hmalformed : r.IsMalformed := by
        by_contra hformed
        obtain ⟨wish, hok⟩ := Request.succeeds_wish_iff.mpr hformed
        rw [hwish] at hok
        contradiction
      simp [status_of_malformed hmalformed, hmalformed, badRequest]
  | ok wish =>
      have hformed : ¬ r.IsMalformed := Request.succeeds_wish_iff.mp ⟨wish, hwish⟩
      rw [status_search hanswering hserves hsame hwish]
      by_cases hgranted : wish.IsGranted g.entries
      · simp [hgranted.status_eq, hformed, hgranted]
      · simp [Wish.status_of_not_isGranted hgranted, hformed, hgranted, serviceError]

/-- A service with a coordinator of its own, after the first build of the tied files. -/
def ofTied : App where
  registry := { environment := .empty, coordinators := #[Coordinator.ofTied] }
  own := some 0

/-- A moment at which the tied files are still there. -/
def tiedMoment : Moment where
  around := ⟨fun _ => Coordinator.tied, "/", ⟨⟨2024, 1, 1⟩, 1, 0, 0, 0⟩,
    ⟨⟨2024, 1, 1⟩, 0, 0, 0, 0⟩, none⟩
  time := ""

def nearRequest : Request where
  path := "/api/search"
  parameters := [("q", " a ")]

theorem search_status_tied : (ofTied.handle tiedMoment nearRequest).2.1.status = 200 := by
  obtain ⟨g, hserves, -, hentries⟩ := Coordinator.exists_ofTied_serves
  have hanswering : ofTied.answering tiedMoment = (ofTied, .ok (0, Coordinator.ofTied), []) := rfl
  have hsame : (Coordinator.ofTied.keeper.hasChanged tiedMoment.around.disk).1 = false :=
    Coordinator.ofTied_unchanged
  obtain ⟨-, hanswered, -⟩ := search_status (r := nearRequest) hanswering hserves hsame rfl rfl
  have hquery : WithinLimits "a" none :=
    ⟨by decide +kernel, by decide +kernel, by decide +kernel⟩
  have hplain : ∀ e ∈ g.entries,
      e.name.isText ∧ e.volumeLabel = none ∧ e.volumeRoot = none := by
    rw [hentries]
    decide
  refine hanswered.mpr ⟨⟨"a", none, none⟩, by decide +kernel,
    ⟨hquery.isAccepted g.entries, fun e he => ?_⟩, fun e he => ?_⟩
  · obtain ⟨-, -, hroot⟩ := hplain e (mem_of_mem_slice he)
    simp [Index.Entry.IsShowable, hroot]
  · obtain ⟨hname, hlabel, hroot⟩ := hplain e (mem_of_mem_slice he)
    exact ⟨Or.inl hname, by simp [hlabel], by simp [hroot]⟩

/-- A request for what lies behind the greatest stored integer. -/
def farRequest : Request where
  path := "/api/search"
  parameters := [("q", "a"), ("offset", "9223372036854775808")]

/-- A request that is not malformed may still end in an error of the service. -/
theorem search_ends_in_error :
    (∃ g, Coordinator.ofTied.Serves g) ∧
      (Coordinator.ofTied.keeper.hasChanged tiedMoment.around.disk).1 = false ∧
      ¬ farRequest.IsMalformed ∧ (ofTied.handle tiedMoment farRequest).2.1.status = 500 := by
  obtain ⟨g, hserves, -⟩ := Coordinator.exists_ofTied_serves
  refine ⟨⟨g, hserves⟩, Coordinator.ofTied_unchanged, ?_, by decide +kernel⟩
  rw [← Request.succeeds_wish_iff]
  exact ⟨⟨"a", none, some 9223372036854775808⟩, by decide +kernel⟩

end App

end Service

end DiskCatalog
