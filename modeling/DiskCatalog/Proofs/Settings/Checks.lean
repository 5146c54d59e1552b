import DiskCatalog.Proofs.Fallible
import DiskCatalog.Proofs.Text.Numerals
import DiskCatalog.Proofs.Text.Words
import DiskCatalog.Settings.Fields

/-!
# Checks of variables

A variable that is checked has texts that can be used, each with the value that it stands for, and
texts that are passed over in silence; about any other text there is one warning.  What is made of
the variable is the value of its text, or else the default, with that warning.

A form refuses a text for its value only, and it refuses every blank text.  So reading a variable
by a form, as the hour of the nightly refresh or as one of some words never fails.
-/

namespace DiskCatalog.Settings

variable {α β : Type}

/-! ## Forms -/

namespace Form

variable {form : Form α}

/-- What a form reads from a text, if it can. -/
def reading? (form : Form α) (text : String) : Option α :=
  (form.read (.text text)).toOption

/-- A text is refused only for its value, and every blank text is refused. -/
structure ReadsTexts (form : Form α) : Prop where
  faults : ∀ text, FailsOnlyBy (fun failure => isUnusable failure) (form.read (.text text))
  blank : ∀ text, Text.isBlankString text → form.reading? text = none

theorem integer_read (v : Value) : integer.read v = v.toInteger.mapError .number :=
  rfl

theorem number_read (v : Value) : number.read v = v.toNumber.mapError .number :=
  rfl

theorem truth_read (v : Value) : truth.read v =
    match v.toBool? with
    | some b => .ok b
    | none => .error (.other .value v.shown) :=
  rfl

theorem toBool?_text (text : String) : (Value.text text).toBool? =
    if ["1", "true", "yes", "on"].contains (Text.lowerKeyword (Text.trimString text)) then some true
    else if ["0", "false", "no", "off"].contains (Text.lowerKeyword (Text.trimString text)) then
      some false
    else none := by
  delta Value.toBool?
  rfl

theorem integer_reading? (text : String) :
    integer.reading? text = (Text.readInt text.toList).toOption := by
  rw [reading?, integer_read, Value.toInteger, integerOfText]
  cases Text.readInt text.toList with
  | ok n => rfl
  | error fault => cases fault <;> rfl

theorem number_reading? (text : String) :
    number.reading? text = Binary64.read? text.toList := by
  rw [reading?, number_read, Value.toNumber]
  cases Binary64.read? text.toList <;> rfl

theorem truth_reading? (text : String) : truth.reading? text = (Value.text text).toBool? := by
  rw [reading?, truth_read]
  cases (Value.text text).toBool? <;> rfl

theorem integer_readsTexts : integer.ReadsTexts where
  faults := by
    intro text
    rw [integer_read, Value.toInteger, integerOfText]
    cases Text.readInt text.toList with
    | ok n => exact failsOnlyBy_ok _ n
    | error fault => cases fault <;> exact failsOnlyBy_error.mpr rfl
  blank := by
    intro text hblank
    rw [integer_reading?, Text.readInt_of_blank (List.all_eq_true.mp hblank)]
    rfl

theorem number_readsTexts : number.ReadsTexts where
  faults := by
    intro text
    rw [number_read, Value.toNumber]
    cases Binary64.read? text.toList with
    | some x => exact failsOnlyBy_ok _ x
    | none => exact failsOnlyBy_error.mpr rfl
  blank := by
    intro text hblank
    rw [number_reading?, Binary64.read?_of_blank (List.all_eq_true.mp hblank)]

theorem truth_readsTexts : truth.ReadsTexts where
  faults := by
    intro text
    rw [truth_read]
    cases (Value.text text).toBool? with
    | some b => exact failsOnlyBy_ok _ b
    | none => exact failsOnlyBy_error.mpr rfl
  blank := by
    intro text hblank
    rw [truth_reading?, toBool?_text, Text.trimString_eq_empty_iff.mpr hblank]
    decide

end Form

/-! ## Checks -/

/-- A check of a variable, for the field that it sets. -/
structure Check (α : Type) where
  name : String
  field : String
  /-- The value if there is no text that can be used. -/
  fallback : α
  /-- The value that a text stands for, if it can be used. -/
  read : String → Option α
  /-- The texts that count as none. -/
  isIgnored : String → Bool
  warning : String → Log.Record

namespace Check

variable {c : Check α}

def warning? (c : Check α) (text : String) : Option Log.Record :=
  if c.isIgnored text || (c.read text).isSome then none else some (c.warning text)

/-- What is made of a variable, with its text if it has one. -/
def setting (c : Check α) (text? : Option String) : Setting α where
  value := (text?.bind c.read).getD c.fallback
  logs := (text?.bind c.warning?).toList

/-- No blank text can be used, only blank texts are ignored, and a warning is no more than that. -/
structure IsSound (c : Check α) : Prop where
  blank : ∀ text, Text.isBlankString text → c.read text = none
  ignored : ∀ text, c.isIgnored text → Text.isBlankString text
  warns : ∀ text, (c.warning text).severity = .warning

/-- There is a warning about a text that is not blank exactly if it cannot be used. -/
theorem IsSound.isSome_warning? (hc : c.IsSound) {text : String}
    (hsolid : ¬ Text.isBlankString text) : (c.warning? text).isSome ↔ c.read text = none := by
  have hheeded : c.isIgnored text = false :=
    Bool.eq_false_iff.mpr fun hignored => hsolid (hc.ignored text hignored)
  cases hread : c.read text <;> simp [warning?, hheeded, hread]

theorem IsSound.severity_eq (hc : c.IsSound) {text : String} {record : Log.Record}
    (hwarning : c.warning? text = some record) : record.severity = .warning := by
  unfold warning? at hwarning
  split_ifs at hwarning
  obtain rfl := Option.some.inj hwarning
  exact hc.warns text

/-- What holds of the default and of all values that are read holds of the value that is set. -/
theorem setting_value {P : α → Prop} (hfallback : P c.fallback)
    (hread : ∀ text a, c.read text = some a → P a) (text? : Option String) :
    P (c.setting text?).value := by
  unfold setting
  cases hvalue : text?.bind c.read with
  | none => exact hfallback
  | some a =>
      obtain ⟨text, -, ha⟩ := Option.bind_eq_some_iff.mp hvalue
      exact hread text a ha

/-- The same check with its values in another type. -/
def map (value : α → β) (c : Check α) : Check β where
  name := c.name
  field := c.field
  fallback := value c.fallback
  read text := (c.read text).map value
  isIgnored := c.isIgnored
  warning := c.warning

theorem setting_map (value : α → β) (text? : Option String) :
    (c.map value).setting text? = ⟨value (c.setting text?).value, (c.setting text?).logs⟩ := by
  cases text? with
  | none => rfl
  | some text => cases hread : c.read text <;> simp [setting, warning?, map, hread]

theorem IsSound.map (hc : c.IsSound) (value : α → β) : (c.map value).IsSound where
  blank := by
    intro text hblank
    have hread := hc.blank text hblank
    simp [Check.map, hread]
  ignored := hc.ignored
  warns := hc.warns

/-! ## Kinds of checks -/

/-- A variable is read by a form. -/
def ofForm (form : Form α) (name field : String) (default : α) : Check α where
  name := name
  field := field
  fallback := default
  read := form.reading?
  isIgnored := Text.isBlankString
  warning text := form.warning name default (.text text)

section Form

variable {form : Form α} (hform : form.ReadsTexts)

include hform

theorem ofForm_isSound (name field : String) (default : α) :
    (ofForm form name field default).IsSound where
  blank := hform.blank
  ignored := fun _ hblank => hblank
  warns := fun _ => rfl

theorem lenient_ofText? (name field : String) (default : α) (text? : Option String) :
    form.lenient name default (.ofText? text?) =
      .ok ((ofForm form name field default).setting text?) := by
  cases text? with
  | none => rfl
  | some text =>
      by_cases hblank : Text.isBlankString text
      · have hread := hform.blank text hblank
        simp [Form.lenient, Value.ofText?, isUnset, setting, warning?, ofForm, hblank, hread]
      · cases hread : form.read (.text text) with
        | ok a =>
            have hreading : form.reading? text = some a := by rw [Form.reading?, hread]; rfl
            simp [Form.lenient, Value.ofText?, isUnset, setting, warning?, ofForm, hblank, hread,
              hreading]
        | error failure =>
            have hreading : form.reading? text = none := by rw [Form.reading?, hread]; rfl
            have hunusable : isUnusable failure := hform.faults text failure hread
            simp [Form.lenient, Value.ofText?, isUnset, setting, warning?, ofForm, hblank, hread,
              hreading, hunusable]

theorem readVariable_eq (env : Environment) (name field : String) (default : α) :
    readVariable form env name default =
      .ok ((ofForm form name field default).setting (env.get? name)) :=
  lenient_ofText? hform name field default (env.get? name)

end Form

/-- A variable is one of some words once it has been folded. -/
def ofWords (words : List String) (fold : String → String) (name field default : String)
    (message : String → String) : Check String where
  name := name
  field := field
  fallback := default
  read text := (some (fold (Text.trimString text))).filter words.contains
  isIgnored := String.isEmpty
  warning text := Log.warning (message text)

section Words

variable {words : List String} {fold : String → String}

theorem mem_setting_value {default : String} (hdefault : default ∈ words) (name field : String)
    (message : String → String) (text? : Option String) :
    ((ofWords words fold name field default message).setting text?).value ∈ words := by
  refine setting_value (P := fun word => word ∈ words) hdefault (fun text word hread => ?_) text?
  simp only [ofWords, Option.filter_eq_some_iff] at hread
  exact List.contains_iff_mem.mp hread.2

variable (hempty : fold "" ∉ words)

include hempty

theorem ofWords_isSound (name field default : String) (message : String → String) :
    (ofWords words fold name field default message).IsSound where
  blank := by
    intro text hblank
    simp [ofWords, Text.trimString_eq_empty_iff.mpr hblank, hempty]
  ignored := by
    intro text hignored
    have htext : text = "" := by simpa [ofWords] using hignored
    rw [htext]
    rfl
  warns := fun _ => rfl

theorem oneOf_eq (name field default : String) (message : String → String)
    (text? : Option String) : oneOf words fold default message text? =
      (ofWords words fold name field default message).setting text? := by
  cases text? with
  | none => rfl
  | some text =>
      by_cases htext : text = ""
      · have htrim : Text.trimString "" = "" := rfl
        simp [oneOf, setting, warning?, ofWords, Option.filter, htext, htrim, hempty]
      · by_cases hword : fold (Text.trimString text) ∈ words <;>
          simp [oneOf, setting, warning?, ofWords, Option.filter, htext, hword]

end Words

def isHour (hour : Int) : Bool :=
  0 ≤ hour ∧ hour ≤ 23

def hourWarning (hour default : Int) : Log.Record :=
  Log.warning ("Invalid refresh hour " ++ Text.ofInt hour ++ ", must be 0-23. Using default: " ++
    Text.ofInt default)

/-- A variable is an hour of the day. -/
def ofHour (name field : String) (default : Int) : Check Int where
  name := name
  field := field
  fallback := default
  read text := (Form.integer.reading? text).filter isHour
  isIgnored := Text.isBlankString
  warning text :=
    match Form.integer.reading? text with
    | none => Form.integer.warning name default (.text text)
    | some hour => hourWarning hour default

theorem ofHour_isSound (name field : String) (default : Int) :
    (ofHour name field default).IsSound where
  blank := by
    intro text hblank
    simp [ofHour, Form.integer_readsTexts.blank text hblank]
  ignored := fun _ hblank => hblank
  warns := by
    intro text
    cases hread : Form.integer.reading? text <;> simp only [ofHour, hread] <;> rfl

theorem isHour_setting_value {default : Int} (hdefault : isHour default) (name field : String)
    (text? : Option String) : isHour ((ofHour name field default).setting text?).value := by
  refine setting_value (P := fun hour => isHour hour) hdefault (fun text hour hread => ?_) text?
  simp only [ofHour, Option.filter_eq_some_iff] at hread
  exact hread.2

/-- The hour is an integer, looked at again once it has been read. -/
theorem ofHour_setting {default : Int} (hdefault : isHour default) (name field : String)
    (text? : Option String) : (ofHour name field default).setting text? =
      let hour := (ofForm .integer name field default).setting text?
      if isHour hour.value then hour
      else ⟨default, hour.logs ++ [hourWarning hour.value default]⟩ := by
  cases text? with
  | none => simp [setting, ofForm, ofHour, hdefault]
  | some text =>
      cases hread : Form.integer.reading? text with
      | none => simp [setting, warning?, ofForm, ofHour, hread, hdefault]
      | some hour =>
          have hsolid : Text.isBlankString text = false := by
            refine Bool.eq_false_iff.mpr fun hblank => ?_
            rw [Form.integer_readsTexts.blank text hblank] at hread
            contradiction
          cases hhour : isHour hour <;>
            simp [setting, warning?, ofForm, ofHour, Option.filter, hread, hsolid, hhour]

end Check

end DiskCatalog.Settings
