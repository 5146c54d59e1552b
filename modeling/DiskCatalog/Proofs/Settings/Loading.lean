import DiskCatalog.Proofs.Settings.Checks

/-!
# Loading settings

Settings are loaded from every environment.  A variable that is checked sets its own field to the
value that its text stands for, or leaves the default, and it gives at most one warning: exactly one
if its text is not blank and cannot be used.  No variable changes the field of another.
-/

namespace DiskCatalog.Settings

variable {α β : Type}

/-! ## The checks -/

namespace Check

def minFileSize : Check Int :=
  ofForm .integer "MIN_FILE_SIZE" "min_file_size" default.minFileSize

def nightlyHour : Check Int :=
  ofHour "NIGHTLY_REFRESH_HOUR" "nightly_refresh_hour" default.nightlyHour

def maxDepth : Check Int :=
  ofForm .integer "MAX_ANCESTRY_DEPTH" "max_ancestry_depth" default.maxDepth

def debounce : Check Binary64 :=
  ofForm .number "WATCH_DEBOUNCE_SECS" "debounce_secs" default.debounce

def watch : Check Bool :=
  ofForm .truth "WATCH_ENABLED" "watch_enabled" default.watch

def polling : Check Bool :=
  ofForm .truth "WATCH_USE_POLLING" "watch_use_polling" default.polling

def port : Check Int :=
  ofForm .integer "PORT" "port" default.port

def logLevel : Check String :=
  ofWords logLevels Text.raiseKeyword "LOG_LEVEL" "log_level" default.logLevel
    fun text => "Invalid LOG_LEVEL " ++ Text.quoted text ++ ", using default: INFO"

def logFormat : Check String :=
  ofWords logFormats Text.lowerKeyword "LOG_FORMAT" "log_format" default.logFormat
    fun text => "Invalid LOG_FORMAT " ++ Text.quoted text ++
      ", must be one of ('text', 'json'). Using default: text"

end Check

/-- The checks in the order in which the variables are read. -/
def checks : List (Check Value) :=
  [Check.minFileSize.map .int, Check.nightlyHour.map .int, Check.maxDepth.map .int,
    Check.debounce.map .float, Check.watch.map .bool, Check.polling.map .bool,
    Check.port.map .int, Check.logLevel.map .text, Check.logFormat.map .text]

theorem raiseKeyword_empty_notMem : Text.raiseKeyword "" ∉ logLevels := by decide

theorem lowerKeyword_empty_notMem : Text.lowerKeyword "" ∉ logFormats := by decide

theorem isSound_of_mem_checks : ∀ c ∈ checks, c.IsSound := by
  simp only [checks, List.forall_mem_cons, List.not_mem_nil, false_implies, implies_true, and_true]
  exact ⟨(Check.ofForm_isSound Form.integer_readsTexts _ _ _).map _,
    (Check.ofHour_isSound _ _ _).map _,
    (Check.ofForm_isSound Form.integer_readsTexts _ _ _).map _,
    (Check.ofForm_isSound Form.number_readsTexts _ _ _).map _,
    (Check.ofForm_isSound Form.truth_readsTexts _ _ _).map _,
    (Check.ofForm_isSound Form.truth_readsTexts _ _ _).map _,
    (Check.ofForm_isSound Form.integer_readsTexts _ _ _).map _,
    (Check.ofWords_isSound raiseKeyword_empty_notMem _ _ _ _).map _,
    (Check.ofWords_isSound lowerKeyword_empty_notMem _ _ _ _).map _⟩

/-! ## What is loaded -/

/-- What a check makes of an environment. -/
def Check.settingIn (c : Check α) (env : Environment) : Setting α :=
  c.setting (env.get? c.name)

theorem Check.settingIn_map (c : Check α) (value : α → β) (env : Environment) :
    (c.map value).settingIn env = ⟨value (c.settingIn env).value, (c.settingIn env).logs⟩ :=
  c.setting_map value (env.get? c.name)

theorem nightlyHourOf_eq (env : Environment) :
    nightlyHourOf env = .ok (Check.nightlyHour.settingIn env) := by
  rw [nightlyHourOf, Check.readVariable_eq Form.integer_readsTexts env _ "nightly_refresh_hour",
    Check.settingIn, Check.nightlyHour, Check.ofHour_setting (by decide)]
  simp only [Check.isHour, Check.hourWarning, decide_eq_true_eq]
  exact (apply_ite Except.ok _ _ _).symm

def settingsOf (env : Environment) : Settings where
  databasePath := (env.firstSet ["CATALOG_DB_PATH", "DB_PATH"]).getD default.databasePath
  excludes := excludePatterns ((env.get? "EXCLUDE_PATTERNS").getD "")
  minFileSize := (Check.minFileSize.settingIn env).value
  nightlyHour := (Check.nightlyHour.settingIn env).value
  maxDepth := (Check.maxDepth.settingIn env).value
  debounce := (Check.debounce.settingIn env).value
  watch := (Check.watch.settingIn env).value
  polling := (Check.polling.settingIn env).value
  host := (env.firstSet ["HOST"]).getD default.host
  port := (Check.port.settingIn env).value
  logLevel := (Check.logLevel.settingIn env).value
  logFormat := (Check.logFormat.settingIn env).value

def warningsOf (env : Environment) : List Log.Record :=
  checks.filterMap fun c => (env.get? c.name).bind c.warning?

theorem logLevelOf_eq (env : Environment) : logLevelOf env = Check.logLevel.settingIn env :=
  Check.oneOf_eq raiseKeyword_empty_notMem "LOG_LEVEL" "log_level" _ _ _

theorem logFormatOf_eq (env : Environment) : logFormatOf env = Check.logFormat.settingIn env :=
  Check.oneOf_eq lowerKeyword_empty_notMem "LOG_FORMAT" "log_format" _ _ _

theorem warningsOf_eq (env : Environment) : warningsOf env =
    checks.flatMap fun c => (c.settingIn env).logs :=
  List.filterMap_eq_flatMap_toList _ _

theorem load_eq (env : Environment) : load env = .ok ⟨settingsOf env, warningsOf env⟩ := by
  have hinteger := fun name field default =>
    Check.readVariable_eq Form.integer_readsTexts env name field default
  rw [warningsOf_eq, load, nightlyHourOf_eq, logLevelOf_eq, logFormatOf_eq,
    hinteger "MIN_FILE_SIZE" "min_file_size", hinteger "MAX_ANCESTRY_DEPTH" "max_ancestry_depth",
    hinteger "PORT" "port",
    Check.readVariable_eq Form.number_readsTexts env "WATCH_DEBOUNCE_SECS" "debounce_secs",
    Check.readVariable_eq Form.truth_readsTexts env "WATCH_ENABLED" "watch_enabled",
    Check.readVariable_eq Form.truth_readsTexts env "WATCH_USE_POLLING" "watch_use_polling"]
  refine congrArg (fun logs => Except.ok (Setting.mk (settingsOf env) logs)) ?_
  simp only [checks, List.flatMap_cons, List.flatMap_nil, Check.settingIn_map, List.append_assoc,
    List.append_nil]
  rfl

/-! ## Fields -/

/-- The value of a field. -/
def field? (s : Settings) (name : String) : Option Value :=
  s.toFields.lookup name

theorem field?_settingsOf (env : Environment) :
    ∀ c ∈ checks, (settingsOf env).field? c.field = some (c.settingIn env).value := by
  simp only [checks, List.forall_mem_cons, List.not_mem_nil, false_implies, implies_true, and_true,
    Check.settingIn_map]
  exact ⟨rfl, rfl, rfl, rfl, rfl, rfl, rfl, rfl, rfl⟩

theorem field?_default : ∀ c ∈ checks, default.field? c.field = some c.fallback := by
  simp only [checks, List.forall_mem_cons, List.not_mem_nil, false_implies, implies_true, and_true]
  exact ⟨rfl, rfl, rfl, rfl, rfl, rfl, rfl, rfl, rfl⟩

/-- The variables with the fields that they set. -/
def owners : List (String × String) :=
  [("CATALOG_DB_PATH", "db_path"), ("DB_PATH", "db_path"), ("EXCLUDE_PATTERNS", "exclude_patterns"),
    ("HOST", "host")] ++ checks.map fun c => (c.name, c.field)

theorem owners_perm_variableNames : (owners.map Prod.fst).Perm variableNames := by
  decide

theorem nodup_names : (checks.map Check.name).Nodup := by
  decide

theorem lookup_congr {field : String} {l l' : List (String × Value)}
    (h : List.Forall₂ (fun p q => p.1 = q.1 ∧ (p.1 = field → p.2 = q.2)) l l') :
    l.lookup field = l'.lookup field := by
  induction h with
  | nil => rfl
  | @cons p q l l' hhead htail ih =>
      obtain ⟨hname, hvalue⟩ := hhead
      rw [List.lookup_cons, List.lookup_cons, ← hname, ih]
      by_cases hfield : field = p.1
      · rw [hvalue hfield.symm]
      · rw [beq_false_of_ne hfield]

section Congr

variable {env env' : Environment}

theorem Check.settingIn_congr {c : Check α} (hagree : env'.get? c.name = env.get? c.name) :
    c.settingIn env' = c.settingIn env :=
  congrArg c.setting hagree

theorem Environment.firstSet_congr {names : List String}
    (hagree : ∀ name ∈ names, env'.get? name = env.get? name) :
    env'.firstSet names = env.firstSet names := by
  induction names with
  | nil => rfl
  | cons name names ih =>
      have htail := ih fun other hother => hagree other (List.mem_cons_of_mem name hother)
      simp only [firstSet] at htail
      simp only [firstSet, List.findSome?_cons, hagree name List.mem_cons_self, htail]

/-- A field depends on the variables that set it, and on no others. -/
theorem field?_congr {field : String}
    (hagree : ∀ name, (name, field) ∈ owners → env'.get? name = env.get? name) :
    (settingsOf env').field? field = (settingsOf env).field? field := by
  have hset {α : Type} (c : Check α) (value : α → Value) (howner : (c.name, c.field) ∈ owners)
      (hfield : c.field = field) : value (c.settingIn env').value = value (c.settingIn env).value := by
    rw [hfield] at howner
    rw [Check.settingIn_congr (hagree c.name howner)]
  have hfirst (names : List String) {own : String} (howner : ∀ name ∈ names, (name, own) ∈ owners)
      (hfield : own = field) : env'.firstSet names = env.firstSet names := by
    rw [hfield] at howner
    exact Environment.firstSet_congr fun name hname => hagree name (howner name hname)
  have hpatterns : "exclude_patterns" = field →
      env'.get? "EXCLUDE_PATTERNS" = env.get? "EXCLUDE_PATTERNS" := by
    rintro rfl
    exact hagree _ (by decide)
  refine lookup_congr ?_
  simp only [toFields, List.forall₂_cons, List.forall₂_nil_left_iff, true_and, and_true, settingsOf]
  exact ⟨fun hfield => by rw [hfirst ["CATALOG_DB_PATH", "DB_PATH"] (by decide) hfield],
    fun hfield => by rw [hpatterns hfield],
    hset .minFileSize .int (by decide), hset .nightlyHour .int (by decide),
    hset .maxDepth .int (by decide), hset .debounce .float (by decide),
    hset .watch .bool (by decide), hset .polling .bool (by decide),
    fun hfield => by rw [hfirst ["HOST"] (by decide) hfield], hset .port .int (by decide),
    hset .logLevel .text (by decide), hset .logFormat .text (by decide)⟩

end Congr

/-! ## Nothing set -/

theorem problems_default : default.problems = [] := by
  decide

theorem settingsOf_of_unset {env : Environment}
    (hunset : ∀ name ∈ variableNames, env.get? name = none) : settingsOf env = default := by
  have hset {α : Type} (c : Check α) (hname : c.name ∈ variableNames) :
      c.settingIn env = ⟨c.fallback, []⟩ := by
    rw [Check.settingIn, hunset c.name hname]
    rfl
  simp only [settingsOf, Environment.firstSet, List.findSome?_cons, List.findSome?_nil,
    hunset "CATALOG_DB_PATH" (by decide), hunset "DB_PATH" (by decide), hunset "HOST" (by decide),
    hunset "EXCLUDE_PATTERNS" (by decide), hset .minFileSize (by decide),
    hset .nightlyHour (by decide), hset .maxDepth (by decide), hset .debounce (by decide),
    hset .watch (by decide), hset .polling (by decide), hset .port (by decide),
    hset .logLevel (by decide), hset .logFormat (by decide)]
  rfl

theorem load_of_unset {env : Environment} (hunset : ∀ name ∈ variableNames, env.get? name = none) :
    load env = .ok ⟨default, []⟩ := by
  have hwarnings : warningsOf env = [] := by
    refine List.filterMap_eq_nil_iff.mpr fun c hc => ?_
    have hname : c.name ∈ owners.map Prod.fst := by
      simp only [owners, List.map_append, List.map_map, List.mem_append, List.mem_map,
        Function.comp]
      exact .inr ⟨c, hc, rfl⟩
    rw [hunset c.name (owners_perm_variableNames.subset hname), Option.bind_none]
  rw [load_eq, settingsOf_of_unset hunset, hwarnings]

/-! ## Lenience -/

/-- All variables but one have the same text, or none, in both environments. -/
def Environment.AgreesExcept (env env' : Environment) (name : String) : Prop :=
  ∀ other, other ≠ name → env'.get? other = env.get? other

/-- What holds of settings that were loaded leniently. -/
structure IsLenient (env : Environment) (loaded : Setting Settings) : Prop where
  /-- A text that can be used sets its field. -/
  read : ∀ c ∈ checks, ∀ text value, env.get? c.name = some text → c.read text = some value →
    loaded.value.field? c.field = some value
  /-- Without such a text the field has its default. -/
  fallback : ∀ c ∈ checks,
    (∀ text, env.get? c.name = some text → Text.isBlankString text ∨ c.read text = none) →
      loaded.value.field? c.field = some c.fallback
  defaults : ∀ c ∈ checks, default.field? c.field = some c.fallback
  nightlyHour : 0 ≤ loaded.value.nightlyHour ∧ loaded.value.nightlyHour ≤ 23
  logLevel : loaded.value.logLevel ∈ logLevels
  logFormat : loaded.value.logFormat ∈ logFormats
  /-- Another text for one variable, or none, changes only the field that it sets. -/
  own : ∀ name env' loaded', env.AgreesExcept env' name → load env' = .ok loaded' →
    ∀ field, (name, field) ∉ owners → loaded'.value.field? field = loaded.value.field? field
  /-- The warnings are about different variables, at most one about each. -/
  logs : loaded.logs = checks.filterMap fun c => (env.get? c.name).bind c.warning?
  distinct : (checks.map Check.name).Nodup
  severity : ∀ record ∈ loaded.logs, record.severity = .warning
  /-- There is one about a text that is not blank exactly if it cannot be used. -/
  warned : ∀ c ∈ checks, ∀ text, ¬ Text.isBlankString text →
    ((c.warning? text).isSome ↔ c.read text = none)

theorem load_isLenient (env : Environment) :
    ∃ loaded, load env = .ok loaded ∧ IsLenient env loaded := by
  refine ⟨_, load_eq env, ?_⟩
  constructor
  case read =>
    intro c hc text value htext hread
    rw [field?_settingsOf env c hc, Check.settingIn, htext]
    simp [Check.setting, hread]
  case fallback =>
    intro c hc hunusable
    rw [field?_settingsOf env c hc, Check.settingIn]
    cases htext : env.get? c.name with
    | none => rfl
    | some text =>
        have hread : c.read text = none :=
          (hunusable text htext).elim ((isSound_of_mem_checks c hc).blank text) id
        simp [Check.setting, hread]
  case defaults => exact field?_default
  case nightlyHour =>
    exact of_decide_eq_true (Check.isHour_setting_value (by decide) _ _ _)
  case logLevel => exact Check.mem_setting_value (by decide) _ _ _ _
  case logFormat => exact Check.mem_setting_value (by decide) _ _ _ _
  case own =>
    intro name env' loaded' hagree hload field hfield
    rw [load_eq] at hload
    obtain rfl := Except.ok.inj hload
    refine field?_congr fun other hother => hagree other ?_
    rintro rfl
    exact hfield hother
  case logs => rfl
  case distinct => exact nodup_names
  case severity =>
    intro record hrecord
    obtain ⟨c, hc, hwarning⟩ := List.mem_filterMap.mp hrecord
    obtain ⟨text, -, hwarning⟩ := Option.bind_eq_some_iff.mp hwarning
    exact (isSound_of_mem_checks c hc).severity_eq hwarning
  case warned => exact fun c hc text => (isSound_of_mem_checks c hc).isSome_warning?

example : (load ⟨[("PORT", "80x"), ("LOG_LEVEL", " debug ")]⟩).map
    (fun loaded => (loaded.value.port, loaded.value.logLevel, loaded.logs.length)) =
      .ok (3000, "DEBUG", 1) := by
  decide

end DiskCatalog.Settings
