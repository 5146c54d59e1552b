import DiskCatalog.Proofs.Calendar.Normal
import DiskCatalog.Proofs.Index.Contract

/-!
# Dates of a build

A build has the entries of its candidates unless a date of theirs tells an instant out of the
calendar, or a name on one of their paths is no text but bytes.  Only an offset can take a date out
of the calendar, and by less than a day.
-/

namespace DiskCatalog.Index

open Calendar Store

/-- How the text of a date column is settled. -/
structure SettledDate (text : String) : Prop where
  outcome : ∀ r, normalDate (some text) = r ↔ DateOutcome text r
  returns : Succeeds (normalDate (some text)) ↔ ∀ n ∈ instant? text, InCalendar n
  shifted : ∀ s ∈ stamp? text, ¬ InCalendar s.instant → s.offset.isSome
  near : ∀ n ∈ instant? text, -(microsPerDay : Int) < n ∧ n < calendarEnd + microsPerDay

theorem settledDate (text : String) : SettledDate text where
  outcome _ := normalDate_eq_iff
  returns := succeeds_normalDate_iff
  shifted s hs hout := (Stamp.toUtc_of_outside (isValid_stamp? s hs) hout).1
  near := instant?_bound

/-- A text that is absent or tells no instant out of the calendar. -/
def IsDatable (text : Option String) : Prop :=
  ∀ s ∈ text, ∀ n ∈ instant? s, InCalendar n

theorem succeeds_normalDate_iff_isDatable (text : Option String) :
    Succeeds (normalDate text) ↔ IsDatable text := by
  cases text with
  | none => simp [IsDatable, normalDate]
  | some s => simp [IsDatable, succeeds_normalDate_iff]

/-- The entries of a build fail by dates that leave the calendar and by bytes on a path only. -/
theorem succeeds_entries_iff_isDatable (r : Readings) (maxDepth : Int) :
    Succeeds (r.entries maxDepth) ↔
      ∀ c ∈ r.candidates, (IsDatable c.changed ∧ IsDatable c.created) ∧
        (r.graph.ancestry maxDepth c.id).IsJoinable := by
  simp only [succeeds_entries, HasDates, succeeds_normalDate_iff_isDatable]

/-- Each date is settled in one of four ways, and only one of them stops a build. -/
theorem dates_settled (r : Readings) (maxDepth : Int) :
    (∀ text, SettledDate text) ∧
      (Succeeds (r.entries maxDepth) ↔
        ∀ c ∈ r.candidates, (IsDatable c.changed ∧ IsDatable c.created) ∧
          (r.graph.ancestry maxDepth c.id).IsJoinable) :=
  ⟨settledDate, succeeds_entries_iff_isDatable r maxDepth⟩

/-- A catalog with one file and the text of its date. -/
def datedFile (changed : String) : Target :=
  .file ⟨1, 1, .database (.ofRows [⟨1, .int 1, some "a"⟩]
    [⟨.int 1, none, some changed, none, .int 3⟩] [] [])⟩

/-- The first midnight of the calendar, an hour east of Greenwich, stops a build. -/
theorem date_stops_build :
    normalDate (some "0001-01-01T00:00:00+01:00") = .error .beyondCalendar ∧
      (build "c" ⟨[], 0, 100⟩ (datedFile "0001-01-01T00:00:00+01:00")).result =
        .error .beyondCalendar ∧
      ¬ ∀ text, Succeeds (normalDate (some text)) := by
  have hbeyond : normalDate (some "0001-01-01T00:00:00+01:00") = .error .beyondCalendar := by
    decide +kernel
  have hbuild : (build "c" ⟨[], 0, 100⟩ (datedFile "0001-01-01T00:00:00+01:00")).result =
      .error .beyondCalendar := by
    decide +kernel
  refine ⟨hbeyond, hbuild, fun hall => ?_⟩
  obtain ⟨shown, hshown⟩ := hall "0001-01-01T00:00:00+01:00"
  rw [hbeyond] at hshown
  contradiction

end DiskCatalog.Index
