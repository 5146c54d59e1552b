import DiskCatalog.Proofs.Calendar.Instants
import DiskCatalog.Proofs.Text.Words

/-!
# Reading dates and times

What is read from a text is a time of the calendar, with an offset of less than a day.  The text of
an instant in milliseconds is read back as that instant, in UTC and cut to the millisecond.
-/

namespace DiskCatalog.Calendar

open Text

/-! ## What is read -/

/-- A time of the calendar, and an offset of less than a day. -/
structure Stamp.IsValid (s : Stamp) : Prop where
  time : s.time.IsValid
  offset : ∀ o ∈ s.offset, -(microsPerDay : Int) < o ∧ o < microsPerDay

section Options

variable {α β : Type} {P : β → Prop}

theorem forall_mem_bind {x : Option α} {f : α → Option β} (hf : ∀ a ∈ x, ∀ b ∈ f a, P b) :
    ∀ b ∈ x.bind f, P b := by
  intro b hb
  obtain ⟨a, hx, ha⟩ := Option.bind_eq_some_iff.mp hb
  exact hf a hx b ha

theorem forall_mem_guard {p : Prop} [Decidable p] {b : β} (hb : p → P b) :
    ∀ a ∈ (if p then some b else none), P a := by
  intro a ha
  split at ha
  · obtain rfl := Option.some.inj ha
    exact hb ‹p›
  · contradiction

end Options

theorem isValid_dateOfWeek (year week day : Nat) :
    ∀ date ∈ dateOfWeek year week day, date.IsValid := by
  intro date hdate
  unfold dateOfWeek at hdate
  split at hdate
  · contradiction
  · simp only at hdate
    split at hdate
    · contradiction
    · obtain rfl := Option.some.inj hdate
      exact Date.isValid_ofDayNumber (by omega)

theorem isValid_readDate (s : List Char) (divider : Nat) :
    ∀ date ∈ readDate s divider, date.IsValid := by
  simp only [readDate, Option.bind_eq_bind]
  -- each way of reading ends with the date of a week or with a check
  repeat' first
    | exact isValid_dateOfWeek _ _ _
    | exact forall_mem_guard And.right
    | refine forall_mem_bind fun _ _ => ?_
    | split

theorem readOffset_bound (negative : Bool) (s : List Char) :
    ∀ o ∈ readOffset negative s, -(microsPerDay : Int) < o ∧ o < microsPerDay := by
  simp only [readOffset, Option.bind_eq_bind]
  refine forall_mem_bind fun c _ => ?_
  have hday : (0 : Int) < microsPerDay := by decide
  intro o ho
  split at ho
  · contradiction
  · generalize hn : (if c.toMicros < microsPerSecond then (0 : Int) else c.toMicros) = n at ho
    have hnonneg : 0 ≤ n := by
      rw [← hn]
      split_ifs <;> omega
    split at ho
    · contradiction
    · obtain rfl := Option.some.inj ho
      split_ifs <;> omega

theorem isValid_readTime (date : Date) (s : List Char) :
    ∀ stamp ∈ readTime date s, stamp.IsValid := by
  simp only [readTime, Option.bind_eq_bind]
  split
  · split
    · split
      · simp
      · rw [Option.bind_some]
        exact forall_mem_guard fun hvalid => ⟨hvalid, by simp⟩
    · simp
  · refine forall_mem_bind fun c _ => forall_mem_bind fun offset hoffset => ?_
    rw [Option.bind_some]
    refine forall_mem_guard fun hvalid => ⟨hvalid, ?_⟩
    rintro o ho
    obtain rfl := Option.some.inj ho
    exact readOffset_bound _ _ _ hoffset

theorem isValid_readIso (s : List Char) : ∀ stamp ∈ readIso s, stamp.IsValid := by
  unfold readIso
  split
  · simp
  · refine forall_mem_bind fun divider _ => forall_mem_bind fun date hdate => ?_
    split
    · have hmidnight : 0 < 24 ∧ 0 < 60 ∧ 0 < 60 ∧ 0 < microsPerSecond := by decide
      intro stamp hstamp
      obtain rfl := Option.some.inj hstamp
      exact ⟨⟨isValid_readDate _ _ date hdate, hmidnight⟩, by simp⟩
    · exact isValid_readTime date _

/-! ## Reading digits -/

theorem takeDigits_padded {w n : Nat} (hw : 1 ≤ w) (hn : n < 10 ^ w) (rest : List Char) :
    takeDigits w (padded w n ++ rest) = some (n, rest) := by
  have hlength := length_padded hw hn
  have hdigits : (padded w n).all isAsciiDigit :=
    List.all_eq_true.mpr fun c hc => isAsciiDigit_of_mem_padded hw hn hc
  have henough : w ≤ (padded w n ++ rest).length := by
    rw [List.length_append, hlength]
    exact Nat.le_add_right w rest.length
  rw [takeDigits, List.take_left' hlength, List.drop_left' hlength, if_pos ⟨henough, hdigits⟩,
    digitsValue_padded hw hn]

/-- A number of two digits starts with a digit. -/
theorem padded_two_append {n : Nat} (hn : n < 10 ^ 2) (rest : List Char) :
    ∃ c s, padded 2 n ++ rest = c :: s ∧ isAsciiDigit c := by
  obtain ⟨c, s, hsplit⟩ := List.exists_cons_of_ne_nil (padded_ne_nil (by decide) hn)
  refine ⟨c, s ++ rest, by rw [hsplit, List.cons_append], ?_⟩
  exact isAsciiDigit_of_mem_padded (by decide) hn (hsplit ▸ List.mem_cons_self)

/-! ## Reading back -/

theorem dividerIndex_dashed {d : Date} (hyear : d.year < 10 ^ 4) (hmonth : d.month < 10 ^ 2)
    {rest : List Char} (hrest : 3 ≤ rest.length) :
    dividerIndex (padded 4 d.year ++ '-' :: (padded 2 d.month ++ rest)) = some 10 := by
  have hfour := length_padded (by decide) hyear
  have htwo := length_padded (by decide) hmonth
  obtain ⟨c, s, hsplit, hdigit⟩ := padded_two_append hmonth rest
  have hdash : (padded 4 d.year ++ '-' :: (padded 2 d.month ++ rest))[4]? = some '-' := by
    rw [List.getElem?_append_right hfour.le, hfour]
    rfl
  have hnext : (padded 4 d.year ++ '-' :: (padded 2 d.month ++ rest))[5]? = some c := by
    rw [List.getElem?_append_right (by omega), hfour, hsplit]
    rfl
  have hweek : c ≠ 'W' := ne_of_isAsciiDigit hdigit (by decide)
  have hlength : (padded 4 d.year ++ '-' :: (padded 2 d.month ++ rest)).length ≠ 7 := by
    simp only [List.length_append, List.length_cons, hfour, htwo]
    omega
  rw [dividerIndex, if_neg hlength, if_pos hdash, hnext, if_neg (by simpa using hweek)]

theorem readDate_dashed {d : Date} (hd : d.IsValid) (hyear : d.year < 10 ^ 4)
    (hmonth : d.month < 10 ^ 2) (hday : d.day < 10 ^ 2) (rest : List Char) :
    readDate (padded 4 d.year ++ '-' :: (padded 2 d.month ++ '-' :: (padded 2 d.day ++ rest))) 10 =
      some d := by
  have hfour := length_padded (by decide) hyear
  have htwo := length_padded (by decide) hmonth
  have htwo' := length_padded (by decide) hday
  simp only [readDate, takeDigits_padded (by decide) hyear, Option.bind_eq_bind, Option.bind_some]
  split
  · rename_i t hweek
    obtain ⟨c, s, hsplit, hdigit⟩ := padded_two_append hmonth ('-' :: (padded 2 d.day ++ rest))
    rw [hsplit, List.cons.injEq] at hweek
    exact absurd hweek.1 (ne_of_isAsciiDigit hdigit (by decide))
  · simp only [takeDigits_padded (by decide) hmonth, takeDigits_padded (by decide) hday,
      Option.bind_some, if_true]
    have hbehind : (padded 4 d.year ++ '-' :: (padded 2 d.month ++ '-' ::
        (padded 2 d.day ++ rest))).length - rest.length = 10 := by
      simp only [List.length_append, List.length_cons, hfour, htwo, htwo']
      omega
    exact if_pos ⟨hbehind, hd⟩

/-- A field of two digits is read up to the colon behind it. -/
theorem readFields_colon (last : Bool) (c : Clock) (field left : Nat) {n : Nat} (hn : n < 10 ^ 2)
    {rest : List Char} (hrest : rest ≠ []) :
    readFields last true c field (left + 1) (padded 2 n ++ ':' :: rest) =
      readFields last true (c.set field n) (field + 1) left rest := by
  simp [readFields, takeDigits_padded (by decide) hn, hrest]

theorem readFields_point (last : Bool) (c : Clock) {field left n : Nat} (hfield : field ≠ 0)
    (hn : n < 10 ^ 2) {rest : List Char} (hrest : rest ≠ []) :
    readFields last true c field (left + 1) (padded 2 n ++ '.' :: rest) =
      readFraction (c.set field n) last rest := by
  simp [readFields, takeDigits_padded (by decide) hn, hrest, hfield]

theorem readFraction_millis (c : Clock) {n : Nat} (hn : n < 10 ^ 3) :
    readFraction c false (padded 3 n) = some { c with micro := n * 1000, junk := true } := by
  have hlength := length_padded (by decide) hn
  have htake := takeDigits_padded (by decide) hn []
  rw [List.append_nil] at htake
  simp [readFraction, hlength, htake, tenTo]

/-- The offset of UTC as it is written. -/
def utcOffset : List Char :=
  ['+', '0', '0', ':', '0', '0']

theorem isBlank_of_isAsciiDigit {c : Char} (hc : isAsciiDigit c) : isBlank c = false := by
  obtain ⟨hlow, hhigh⟩ := isAsciiDigit_iff.mp hc
  simp only [isBlank, inRanges, blankRanges, List.any_cons, List.any_nil, Bool.or_false,
    Bool.or_eq_false_iff, Bool.and_eq_false_iff, decide_eq_false_iff_not]
  omega

theorem spellUtc_of_notMem {s : List Char} (hs : 'Z' ∉ s) : spellUtc s = s := by
  induction s with
  | nil => rfl
  | cons c s ih =>
      rw [List.mem_cons, not_or] at hs
      have hrest : spellUtc (c :: s) = [c] ++ spellUtc s := by
        simp [spellUtc, Ne.symm hs.1]
      rw [hrest, ih hs.2, List.singleton_append]

theorem spellUtc_concat {s : List Char} (hs : 'Z' ∉ s) : spellUtc (s ++ ['Z']) = s ++ utcOffset := by
  have hsplit : spellUtc (s ++ ['Z']) = spellUtc s ++ utcOffset := List.flatMap_append
  rw [hsplit, spellUtc_of_notMem hs]

namespace DateTime

variable {t : DateTime}

/-- A time without what its text in milliseconds leaves out. -/
def cut (t : DateTime) : DateTime :=
  { t with micro := t.micro / 1000 * 1000 }

theorem isValid_cut (ht : t.IsValid) : t.cut.IsValid := by
  obtain ⟨hdate, hhour, hminute, hsecond, hmicro⟩ := ht
  refine ⟨hdate, hhour, hminute, hsecond, ?_⟩
  exact (Nat.div_mul_le_self t.micro 1000).trans_lt hmicro

theorem toMicros_cut (t : DateTime) : t.cut.toMicros = t.millis * 1000 := by
  simp only [toMicros, cut, millis_eq, microsPerSecond]
  omega

theorem toMillis_cut (t : DateTime) : t.cut.toMillis = t.toMillis := by
  simp only [toMillis, dayChars, clockChars, cut]
  rw [Nat.mul_div_cancel _ (by decide)]

/-- The characters of a time of day to the millisecond. -/
def timeChars (t : DateTime) : List Char :=
  padded 2 t.hour ++ ':' :: (padded 2 t.minute ++ ':' :: (padded 2 t.second ++ '.' ::
    padded 3 (t.micro / 1000)))

/-- The characters of an instant to the millisecond, without the letter for UTC. -/
def instantChars (t : DateTime) : List Char :=
  padded 4 t.date.year ++ '-' :: (padded 2 t.date.month ++ '-' :: (padded 2 t.date.day ++ 'T' ::
    t.timeChars))

theorem toList_toMillis_concat (t : DateTime) : t.toMillis.toList = t.instantChars ++ ['Z'] := by
  simp [toMillis, dayChars, clockChars, instantChars, timeChars]

theorem mem_timeChars (ht : t.IsValid) {c : Char} (hc : c ∈ t.timeChars) :
    isAsciiDigit c ∨ c = ':' ∨ c = '.' := by
  obtain ⟨-, -, -, hhour, hminute, hsecond, hmilli⟩ := ht.widths
  simp only [timeChars, List.mem_append, List.mem_cons] at hc
  rcases hc with hc | rfl | hc | rfl | hc | rfl | hc
  · exact Or.inl (isAsciiDigit_of_mem_padded (by decide) hhour hc)
  · exact Or.inr (Or.inl rfl)
  · exact Or.inl (isAsciiDigit_of_mem_padded (by decide) hminute hc)
  · exact Or.inr (Or.inl rfl)
  · exact Or.inl (isAsciiDigit_of_mem_padded (by decide) hsecond hc)
  · exact Or.inr (Or.inr rfl)
  · exact Or.inl (isAsciiDigit_of_mem_padded (by decide) hmilli hc)

theorem notMem_instantChars (ht : t.IsValid) : 'Z' ∉ t.instantChars := by
  obtain ⟨hyear, hmonth, hday, -⟩ := ht.widths
  have hletter : ∀ {w n : Nat}, 1 ≤ w → n < 10 ^ w → 'Z' ∉ padded w n := by
    intro w n hw hn hc
    exact ne_of_isAsciiDigit (isAsciiDigit_of_mem_padded hw hn hc) (d := 'Z') (by decide) rfl
  have htime : 'Z' ∉ t.timeChars := fun hc => absurd (mem_timeChars ht hc) (by decide)
  simp [instantChars, hletter (by decide) hyear, hletter (by decide) hmonth,
    hletter (by decide) hday, htime]

theorem readClock_timeChars (ht : t.IsValid) :
    readClock false t.timeChars =
      some ⟨t.hour, t.minute, t.second, t.micro / 1000 * 1000, true⟩ := by
  obtain ⟨-, -, -, hhour, hminute, hsecond, hmilli⟩ := ht.widths
  have hne := padded_ne_nil (by decide) hmilli
  rw [readClock, timeChars, readFields_colon _ _ _ _ hhour (by simp),
    readFields_colon _ _ _ _ hminute (by simp), readFields_point _ _ (by decide) hsecond hne,
    readFraction_millis _ hmilli]
  rfl

theorem readTime_timeChars (ht : t.IsValid) :
    readTime t.date (t.timeChars ++ utcOffset) = some ⟨t.cut, some 0⟩ := by
  have hsign : ∀ c ∈ t.timeChars, (!(decide (c = '+') || decide (c = '-'))) = true := by
    intro c hc
    rcases mem_timeChars ht hc with hdigit | rfl | rfl
    · have hplus := ne_of_isAsciiDigit hdigit (d := '+') (by decide)
      have hminus := ne_of_isAsciiDigit hdigit (d := '-') (by decide)
      simp [hplus, hminus]
    · decide
    · decide
  have hbody : (t.timeChars ++ utcOffset).takeWhile
      (fun c => !(decide (c = '+') || decide (c = '-'))) = t.timeChars := by
    rw [List.takeWhile_append_of_pos hsign]
    simp [utcOffset]
  have hrest : (t.timeChars ++ utcOffset).dropWhile
      (fun c => !(decide (c = '+') || decide (c = '-'))) = utcOffset := by
    rw [List.dropWhile_append_of_pos hsign]
    rfl
  have hzero : readOffset (decide ('+' = '-')) ['0', '0', ':', '0', '0'] = some 0 := by decide
  simp only [readTime, hbody, hrest]
  simp only [utcOffset, readClock_timeChars ht, hzero, Option.bind_eq_bind, Option.bind_some]
  exact if_pos (isValid_cut ht)

/-- The text of an instant is read back as the instant, in UTC and to the millisecond. -/
theorem readIso_toMillis (ht : t.IsValid) :
    readIso (spellUtc t.toMillis.toList) = some ⟨t.cut, some 0⟩ := by
  obtain ⟨hyear, hmonth, hday, -⟩ := ht.widths
  have hfour := length_padded (by decide) hyear
  have htwo := length_padded (by decide) hmonth
  have htwo' := length_padded (by decide) hday
  have htext : t.instantChars ++ utcOffset = padded 4 t.date.year ++ '-' ::
      (padded 2 t.date.month ++ '-' :: (padded 2 t.date.day ++ 'T' ::
        (t.timeChars ++ utcOffset))) := by
    simp [instantChars]
  have hlength : ¬ (t.instantChars ++ utcOffset).length < 7 := by
    rw [htext]
    simp only [List.length_append, List.length_cons, hfour, htwo]
    omega
  have hdivider : dividerIndex (t.instantChars ++ utcOffset) = some 10 := by
    rw [htext]
    refine dividerIndex_dashed hyear hmonth ?_
    simp only [List.length_cons, List.length_append, htwo']
    omega
  have hdate : readDate (t.instantChars ++ utcOffset) 10 = some t.date := by
    rw [htext]
    exact readDate_dashed ht.1 hyear hmonth hday _
  have hdrop : (t.instantChars ++ utcOffset).drop 10 = 'T' :: (t.timeChars ++ utcOffset) := by
    have hfront : (padded 4 t.date.year ++ '-' :: (padded 2 t.date.month ++ '-' ::
        padded 2 t.date.day)).length = 10 := by
      simp only [List.length_append, List.length_cons, hfour, htwo, htwo']
    have hsplit : t.instantChars ++ utcOffset = padded 4 t.date.year ++ '-' ::
        (padded 2 t.date.month ++ '-' :: padded 2 t.date.day) ++
          'T' :: (t.timeChars ++ utcOffset) := by
      simp [instantChars]
    rw [hsplit]
    exact List.drop_left' hfront
  rw [toList_toMillis_concat, spellUtc_concat (notMem_instantChars ht), readIso, if_neg hlength,
    hdivider]
  simp only [Option.bind_eq_bind, Option.bind_some, hdate, hdrop]
  exact readTime_timeChars ht

theorem isTrimmed_toMillis (ht : t.IsValid) : IsTrimmed t.toMillis.toList where
  head := by
    intro c hc
    obtain ⟨hyear, -⟩ := ht.widths
    rw [toList_toMillis, List.head?_append_of_ne_nil _ (padded_ne_nil (by decide) hyear)] at hc
    exact isBlank_of_isAsciiDigit
      (isAsciiDigit_of_mem_padded (by decide) hyear (List.mem_of_mem_head? hc))
  last := by
    intro c hc
    rw [toList_toMillis_concat, List.getLast?_concat] at hc
    obtain rfl := Option.some.inj hc
    decide

end DateTime

end DiskCatalog.Calendar
