import DiskCatalog.Calendar.Normal
import DiskCatalog.Proofs.Calendar.Days
import DiskCatalog.Proofs.Text.Padded

/-!
# Instants and their texts

Each instant of the calendar is that of one day and time.  Texts in milliseconds have fields of
fixed widths, the larger units first, so they are ordered as the milliseconds of their instants are.
-/

namespace DiskCatalog.Calendar

open Text

/-- The first instant behind the calendar. -/
def calendarEnd : Int :=
  calendarDays * microsPerDay

def InCalendar (n : Int) : Prop :=
  0 ≤ n ∧ n < calendarEnd

instance (n : Int) : Decidable (InCalendar n) :=
  inferInstanceAs (Decidable (_ ∧ _))

namespace DateTime

variable {s t : DateTime} {n : Int}

/-! ## Times of an instant -/

theorem toMicros_inj (hs : s.IsValid) (ht : t.IsValid) (hsame : s.toMicros = t.toMicros) :
    s = t := by
  obtain ⟨date, hour, minute, second, micro⟩ := s
  obtain ⟨date', hour', minute', second', micro'⟩ := t
  obtain ⟨hdate, hhour, hminute, hsecond, hmicro⟩ := hs
  obtain ⟨hdate', hhour', hminute', hsecond', hmicro'⟩ := ht
  simp only [toMicros, microsPerSecond] at *
  have hday : date.dayNumber = date'.dayNumber := by omega
  obtain rfl := Date.dayNumber_inj hdate hdate' hday
  simp only [mk.injEq, true_and]
  omega

theorem inCalendar_toMicros (ht : t.IsValid) : InCalendar t.toMicros := by
  obtain ⟨hdate, hhour, hminute, hsecond, hmicro⟩ := ht
  have hday := Date.dayNumber_lt_calendarDays hdate
  simp only [InCalendar, calendarEnd, toMicros, microsPerDay, microsPerSecond] at *
  omega

theorem exists_ofMicros? (hn : InCalendar n) :
    ∃ t, ofMicros? n = some t ∧ t.IsValid ∧ (t.toMicros : Int) = n := by
  obtain ⟨hlow, hhigh⟩ := hn
  obtain ⟨k, rfl⟩ := Int.eq_ofNat_of_zero_le hlow
  rw [calendarEnd] at hhigh
  have hinside : ¬ ((k : Int) < 0 ∨ (calendarDays : Int) * microsPerDay ≤ k) := by omega
  have hday : k / microsPerDay < calendarDays := by
    apply Nat.div_lt_of_lt_mul
    rw [Nat.mul_comm]
    exact_mod_cast hhigh
  refine ⟨_, if_neg hinside, ⟨Date.isValid_ofDayNumber hday, ?_⟩, ?_⟩
  · simp only [Int.toNat_natCast, microsPerDay, microsPerSecond]
    omega
  · simp only [toMicros, Int.toNat_natCast, Date.dayNumber_ofDayNumber, microsPerDay,
      microsPerSecond]
    omega

theorem ofMicros?_of_outside (hn : ¬ InCalendar n) : ofMicros? n = none := by
  rw [InCalendar, calendarEnd] at hn
  exact if_pos (by omega)

theorem ofMicros?_toMicros (ht : t.IsValid) : ofMicros? t.toMicros = some t := by
  obtain ⟨u, hu, hvalid, hsame⟩ := exists_ofMicros? (inCalendar_toMicros ht)
  rw [hu, toMicros_inj hvalid ht (by exact_mod_cast hsame)]

/-! ## The order of instants -/

/-- The milliseconds of an instant from the start of the calendar. -/
def millis (t : DateTime) : Nat :=
  t.toMicros / 1000

/-- An earlier date, or the same one and an earlier time, to the millisecond. -/
def Precedes (s t : DateTime) : Prop :=
  s.date.Precedes t.date ∨ s.date = t.date ∧ (s.hour < t.hour ∨ s.hour = t.hour ∧
    (s.minute < t.minute ∨ s.minute = t.minute ∧ (s.second < t.second ∨ s.second = t.second ∧
      s.micro / 1000 < t.micro / 1000)))

theorem millis_eq (t : DateTime) :
    t.millis = (((t.date.dayNumber * 24 + t.hour) * 60 + t.minute) * 60 + t.second) * 1000 +
      t.micro / 1000 := by
  simp only [millis, toMicros, microsPerSecond]
  omega

theorem millis_lt_of_precedes (hs : s.IsValid) (hbefore : s.Precedes t) :
    s.millis < t.millis := by
  obtain ⟨hdate, hhour, hminute, hsecond, hmicro⟩ := hs
  rw [microsPerSecond] at hmicro
  rw [millis_eq, millis_eq]
  rcases hbefore with hday | ⟨hday, htime⟩
  · have hnumber := Date.dayNumber_lt_of_precedes hdate hday
    omega
  · rw [hday]
    omega

theorem precedes_or (s t : DateTime) : s.Precedes t ∨ s.millis = t.millis ∨ t.Precedes s := by
  simp only [Precedes, millis_eq]
  rcases Date.precedes_or s.date t.date with hday | hday | hday
  · exact Or.inl (Or.inl hday)
  · simp only [hday, true_and]
    omega
  · exact Or.inr (Or.inr (Or.inl hday))

theorem millis_lt_iff (hs : s.IsValid) (ht : t.IsValid) : s.millis < t.millis ↔ s.Precedes t := by
  constructor
  · intro hlt
    rcases precedes_or s t with hbefore | hsame | hafter
    · exact hbefore
    · omega
    · have hgt := millis_lt_of_precedes ht hafter
      omega
  · exact millis_lt_of_precedes hs

/-! ## The order of texts -/

theorem toList_toMillis (t : DateTime) :
    t.toMillis.toList = padded 4 t.date.year ++ ('-' :: (padded 2 t.date.month ++ ('-' ::
      (padded 2 t.date.day ++ ('T' :: (padded 2 t.hour ++ (':' :: (padded 2 t.minute ++ (':' ::
        (padded 2 t.second ++ ('.' :: (padded 3 (t.micro / 1000) ++ ['Z'])))))))))))) := by
  simp [toMillis, dayChars, clockChars]

/-- The fields of a valid time have as many digits as they are shown with. -/
theorem IsValid.widths (ht : t.IsValid) :
    t.date.year < 10 ^ 4 ∧ t.date.month < 10 ^ 2 ∧ t.date.day < 10 ^ 2 ∧ t.hour < 10 ^ 2 ∧
      t.minute < 10 ^ 2 ∧ t.second < 10 ^ 2 ∧ t.micro / 1000 < 10 ^ 3 := by
  obtain ⟨⟨-, hyear, -, hmonth, -, hday⟩, hhour, hminute, hsecond, hmicro⟩ := ht
  have hlast := daysInMonth_le t.date.year t.date.month
  rw [microsPerSecond] at hmicro
  omega

theorem toMillis_lt_iff (hs : s.IsValid) (ht : t.IsValid) :
    s.toMillis < t.toMillis ↔ s.Precedes t := by
  obtain ⟨hyear, hmonth, hday, hhour, hminute, hsecond, hmilli⟩ := hs.widths
  obtain ⟨hyear', hmonth', hday', hhour', hminute', hsecond', hmilli'⟩ := ht.widths
  have hdate : s.date = t.date ↔
      s.date.year = t.date.year ∧ s.date.month = t.date.month ∧ s.date.day = t.date.day := by
    cases s.date
    cases t.date
    simp
  have hbehind : ∀ (c : Char) (a b : List Char), c :: a < c :: b ↔ a < b := by
    intro c a b
    simp
  rw [String.lt_iff, toList_toMillis, toList_toMillis]
  simp only [padded_append_lt_iff (by decide : 1 ≤ 4) hyear hyear',
    padded_append_lt_iff (by decide : 1 ≤ 2) hmonth hmonth',
    padded_append_lt_iff (by decide : 1 ≤ 2) hday hday',
    padded_append_lt_iff (by decide : 1 ≤ 2) hhour hhour',
    padded_append_lt_iff (by decide : 1 ≤ 2) hminute hminute',
    padded_append_lt_iff (by decide : 1 ≤ 2) hsecond hsecond',
    padded_append_lt_iff (by decide : 1 ≤ 3) hmilli hmilli', hbehind, Precedes, Date.Precedes,
    hdate, List.not_lt_nil, and_false, or_false]
  omega

/-- Comparing texts is comparing instants, to the millisecond. -/
theorem toMillis_le_iff (hs : s.IsValid) (ht : t.IsValid) :
    s.toMillis ≤ t.toMillis ↔ s.millis ≤ t.millis := by
  rw [← String.not_lt, ← not_lt, toMillis_lt_iff ht hs, millis_lt_iff ht hs]

end DateTime

end DiskCatalog.Calendar
