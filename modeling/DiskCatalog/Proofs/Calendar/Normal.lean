import DiskCatalog.Proofs.Calendar.Reading
import DiskCatalog.Proofs.Fallible

/-!
# Normal forms of dates

The text of a date column is blank, no date, a date whose instant lies in the calendar, or one whose
offset takes it out of the calendar, and only the last one fails.  A normal form is its own normal
form.  It tells the same instant as the text, to the millisecond, and normal forms of dates are
ordered as these instants are.
-/

namespace DiskCatalog.Calendar

open Text

/-! ## The instant of a text -/

/-- The instant of a stamp, in microseconds; without an offset it is in UTC. -/
def Stamp.instant (s : Stamp) : Int :=
  s.time.toMicros - s.offset.getD 0

/-- The stamp that is read from a text between its blanks, where `Z` stands for UTC. -/
def stamp? (text : String) : Option Stamp :=
  readIso (spellUtc (trim text.toList))

def instant? (text : String) : Option Int :=
  (stamp? text).map Stamp.instant

/-- What becomes of the text of a date column. -/
inductive DateOutcome (text : String) : Except Failure (Option String) → Prop
  | blank (hblank : isBlankString text) : DateOutcome text (.ok none)
  | kept (hblank : ¬ isBlankString text) (hnone : instant? text = none) :
      DateOutcome text (.ok (some (trimString text)))
  | shown {t : DateTime} (ht : t.IsValid) (hinstant : instant? text = some (t.toMicros : Int)) :
      DateOutcome text (.ok (some t.toMillis))
  | beyond {n : Int} (hinstant : instant? text = some n) (hn : ¬ InCalendar n) :
      DateOutcome text (.error .beyondCalendar)

variable {text : String} {s : Stamp} {t : DateTime} {n : Int}

theorem isValid_stamp? : ∀ s ∈ stamp? text, s.IsValid :=
  isValid_readIso _

theorem stamp?_of_blank (hblank : isBlankString text) : stamp? text = none := by
  rw [stamp?, trim_toList_eq_nil_iff.mpr hblank]
  rfl

theorem instant?_trimString (text : String) : instant? (trimString text) = instant? text := by
  rw [instant?, stamp?, trimString, String.toList_ofList, trim_trim, ← stamp?, ← instant?]

theorem isBlankString_trimString : isBlankString (trimString text) ↔ isBlankString text := by
  rw [← trimString_eq_empty_iff, ← trimString_eq_empty_iff, trimString_trimString]

/-- The text of an instant tells the instant to the millisecond. -/
theorem instant?_toMillis (ht : t.IsValid) :
    instant? t.toMillis = some (t.cut.toMicros : Int) := by
  rw [instant?, stamp?, (DateTime.isTrimmed_toMillis ht).trim_eq, DateTime.readIso_toMillis ht,
    Option.map_some, Stamp.instant, Option.getD_some, Int.sub_zero]

/-! ## The four outcomes -/

theorem Stamp.toUtc_of_instant (hs : s.IsValid) (ht : t.IsValid)
    (hinstant : s.instant = t.toMicros) : s.toUtc = .ok t := by
  cases hoffset : s.offset with
  | none =>
      have hsame : s.time.toMicros = t.toMicros := by
        simpa [instant, hoffset] using hinstant
      rw [toUtc, hoffset, DateTime.toMicros_inj hs.time ht hsame]
  | some offset =>
      have hsame : (s.time.toMicros : Int) - offset = t.toMicros := by
        rwa [instant, hoffset, Option.getD_some] at hinstant
      rw [toUtc, hoffset]
      simp only [hsame, DateTime.ofMicros?_toMicros ht]

/-- Only an offset takes a stamp out of the calendar. -/
theorem Stamp.toUtc_of_outside (hs : s.IsValid) (hout : ¬ InCalendar s.instant) :
    s.offset.isSome ∧ s.toUtc = .error .beyondCalendar := by
  cases hoffset : s.offset with
  | none =>
      have hinside := DateTime.inCalendar_toMicros hs.time
      rw [instant, hoffset, Option.getD_none, Int.sub_zero] at hout
      contradiction
  | some offset =>
      rw [instant, hoffset, Option.getD_some] at hout
      rw [toUtc, hoffset]
      simp only [DateTime.ofMicros?_of_outside hout, Option.isSome_some, and_self]

theorem normalDate_of_blank (hblank : isBlankString text) : normalDate (some text) = .ok none := by
  simp only [normalDate, trim_toList_eq_nil_iff.mpr hblank, if_true]

theorem normalDate_of_solid (hblank : ¬ isBlankString text) :
    normalDate (some text) = match stamp? text with
      | none => .ok (some (trimString text))
      | some s => s.toUtc.map fun t => some t.toMillis := by
  simp only [normalDate, if_neg (trim_toList_eq_nil_iff.not.mpr hblank)]
  rfl

theorem normalDate_of_stamp (hs : stamp? text = some s) :
    normalDate (some text) = s.toUtc.map fun t => some t.toMillis := by
  have hblank : ¬ isBlankString text := by
    intro hblank
    rw [stamp?_of_blank hblank] at hs
    contradiction
  rw [normalDate_of_solid hblank, hs]

theorem DateOutcome.normalDate_eq {r : Except Failure (Option String)} (hr : DateOutcome text r) :
    normalDate (some text) = r := by
  cases hr with
  | blank hblank => exact normalDate_of_blank hblank
  | kept hblank hnone => rw [normalDate_of_solid hblank, Option.map_eq_none_iff.mp hnone]
  | shown ht hinstant =>
      obtain ⟨s, hs, hsame⟩ := Option.map_eq_some_iff.mp hinstant
      rw [normalDate_of_stamp hs, Stamp.toUtc_of_instant (isValid_stamp? s hs) ht hsame]
      rfl
  | beyond hinstant hout =>
      obtain ⟨s, hs, rfl⟩ := Option.map_eq_some_iff.mp hinstant
      obtain ⟨-, hbeyond⟩ := Stamp.toUtc_of_outside (isValid_stamp? s hs) hout
      rw [normalDate_of_stamp hs, hbeyond]
      rfl

theorem exists_dateOutcome (text : String) : ∃ r, DateOutcome text r := by
  by_cases hblank : isBlankString text
  · exact ⟨_, .blank hblank⟩
  · cases hinstant : instant? text with
    | none => exact ⟨_, .kept hblank hinstant⟩
    | some n =>
        by_cases hn : InCalendar n
        · obtain ⟨t, -, ht, rfl⟩ := DateTime.exists_ofMicros? hn
          exact ⟨_, .shown ht hinstant⟩
        · exact ⟨_, .beyond hinstant hn⟩

/-- The normal form of a text is what becomes of it. -/
theorem normalDate_eq_iff {r : Except Failure (Option String)} :
    normalDate (some text) = r ↔ DateOutcome text r := by
  constructor
  · rintro rfl
    obtain ⟨r, hr⟩ := exists_dateOutcome text
    rwa [hr.normalDate_eq]
  · exact DateOutcome.normalDate_eq

theorem succeeds_normalDate_iff :
    Succeeds (normalDate (some text)) ↔ ∀ n ∈ instant? text, InCalendar n := by
  constructor
  · rintro ⟨shown, hshown⟩ n hn
    by_contra hout
    rw [(DateOutcome.beyond hn hout).normalDate_eq] at hshown
    contradiction
  · intro hinside
    obtain ⟨r, hr⟩ := exists_dateOutcome text
    rw [hr.normalDate_eq]
    cases hr with
    | blank | kept | shown => exact succeeds_ok _
    | beyond hinstant hout => exact absurd (hinside _ hinstant) hout

/-- What is told by a text lies within a day of the calendar. -/
theorem instant?_bound : ∀ n ∈ instant? text,
    -(microsPerDay : Int) < n ∧ n < calendarEnd + microsPerDay := by
  intro n hn
  obtain ⟨s, hs, rfl⟩ := Option.map_eq_some_iff.mp hn
  have hvalid := isValid_stamp? s hs
  obtain ⟨hlow, hhigh⟩ := DateTime.inCalendar_toMicros hvalid.time
  have hday : (0 : Int) < microsPerDay := by decide
  rw [Stamp.instant]
  cases hoffset : s.offset with
  | none =>
      rw [Option.getD_none]
      omega
  | some offset =>
      obtain ⟨hmin, hmax⟩ := hvalid.offset offset hoffset
      rw [Option.getD_some]
      omega

/-! ## Normal forms of normal forms, and their order -/

/-- What the normal forms of two texts tell. -/
structure Orderly (a b : String) : Prop where
  stable : ∀ shown, normalDate (some a) = .ok shown → normalDate shown = .ok shown
  instant : ∀ n ∈ instant? a, ∀ shown, normalDate (some a) = .ok shown →
    ∃ text ∈ shown, instant? text = some (n / 1000 * 1000)
  order : ∀ m ∈ instant? a, ∀ n ∈ instant? b, ∀ s t, normalDate (some a) = .ok (some s) →
    normalDate (some b) = .ok (some t) → (s ≤ t ↔ m / 1000 ≤ n / 1000)

/-- The normal form of a date is the text of its instant. -/
theorem exists_eq_toMillis (hn : instant? text = some n) {shown : Option String}
    (hshown : normalDate (some text) = .ok shown) :
    ∃ t : DateTime, t.IsValid ∧ n = t.toMicros ∧ shown = some t.toMillis := by
  have hinside := succeeds_normalDate_iff.mp ⟨shown, hshown⟩ n hn
  obtain ⟨t, -, ht, rfl⟩ := DateTime.exists_ofMicros? hinside
  rw [(DateOutcome.shown ht hn).normalDate_eq, Except.ok.injEq] at hshown
  exact ⟨t, ht, rfl, hshown.symm⟩

theorem DateTime.normalDate_toMillis (ht : t.IsValid) :
    normalDate (some t.toMillis) = .ok (some t.toMillis) := by
  have hshown := (DateOutcome.shown (isValid_cut ht) (instant?_toMillis ht)).normalDate_eq
  rwa [toMillis_cut] at hshown

theorem normalDate_normalDate {shown : Option String} (hshown : normalDate (some text) = .ok shown) :
    normalDate shown = .ok shown := by
  have hr := normalDate_eq_iff.mp hshown
  cases hr with
  | blank => rfl
  | kept hblank hnone =>
      have hkept : DateOutcome (trimString text) (.ok (some (trimString (trimString text)))) :=
        .kept (isBlankString_trimString.not.mpr hblank) (by rw [instant?_trimString, hnone])
      rw [trimString_trimString] at hkept
      exact hkept.normalDate_eq
  | shown ht => exact DateTime.normalDate_toMillis ht

/-- Normal forms are stable, keep the instant to the millisecond, and are ordered by it. -/
theorem orderly_normalDate (a b : String) : Orderly a b where
  stable _ := normalDate_normalDate
  instant := by
    intro n hn shown hshown
    obtain ⟨t, ht, rfl, rfl⟩ := exists_eq_toMillis hn hshown
    refine ⟨_, rfl, ?_⟩
    rw [instant?_toMillis ht, DateTime.toMicros_cut, DateTime.millis]
    push_cast
    rfl
  order := by
    intro m hm n hn s t hs ht
    obtain ⟨u, hu, rfl, hsu⟩ := exists_eq_toMillis hm hs
    obtain ⟨v, hv, rfl, htv⟩ := exists_eq_toMillis hn ht
    obtain rfl := Option.some.inj hsu
    obtain rfl := Option.some.inj htv
    rw [DateTime.toMillis_le_iff hu hv, DateTime.millis, DateTime.millis]
    omega

example : normalDate (some " 2024-W09-5T00:30:00.5004+01:00 ") =
    .ok (some "2024-02-29T23:30:00.500Z") := by
  decide +kernel

end DiskCatalog.Calendar
