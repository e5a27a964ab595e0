import RequestWindows.Pipeline
import RequestWindows.Proofs.Settings.Path
import RequestWindows.Settings.Environment

/-! Settings that have been accepted can be built with, unless a delay of the writer is too large to
become a double-precision number, which no rule for the settings excludes. -/
namespace RequestWindows

namespace Settings

theorem retention_pos (s : Settings) : 0 < s.retention := by
  have hsampling := s.samplingInterval_pos
  have hretention := s.retention_ge
  omega

/-- The values from which settings are made, field by field. -/
structure ReadFrom (values : List (String × Json)) (s : Settings) : Prop where
  sampling : Field.read values "sampling_interval_ms" ⟨5000, by decide⟩ readPositive =
    .ok ⟨s.samplingInterval, s.samplingInterval_pos⟩
  drain : Field.read values "drain_interval_ms" ⟨1000, by decide⟩ readPositive =
    .ok ⟨s.drainInterval, s.drainInterval_pos⟩
  delay : Field.read values "initial_delay_ms" ⟨5000, by decide⟩ readNonnegative =
    .ok ⟨s.initialDelay, s.initialDelay_nonneg⟩
  retention : Field.read values "retention_ms" ⟨60000, by decide⟩ readPositive =
    .ok ⟨s.retention, s.retention_pos⟩
  cleanup : Field.read values "cleanup_period_ms" ⟨60000, by decide⟩ readPositive =
    .ok ⟨s.cleanupPeriod, s.cleanupPeriod_pos⟩
  expiry : Field.read values "expiry_ms" ⟨600000, by decide⟩ readPositive =
    .ok ⟨s.expiry, s.expiry_pos⟩
  queue : Field.read values "queue_max_size" ⟨100000, by decide⟩ readPositive =
    .ok ⟨s.queueCapacity, s.queueCapacity_pos⟩
  directory : Field.read values "log_dir" "window_logs" readPath = .ok s.logDirectory
  enabled : Field.read values "writer_enabled" true readSwitch = .ok s.writerEnabled
  level : Field.read values "log_level" .info readLevel = .ok s.logLevel

/-- Settings are made from values if every field of theirs is read from these; that retention covers
two windows is part of being settings. -/
theorem ofValues_eq_ok_iff {values : List (String × Json)} {s : Settings} :
    ofValues values = .ok s ↔ ReadFrom values s := by
  constructor
  · intro h
    unfold ofValues at h
    dsimp only at h
    -- If there is a field that cannot be read, the outcome is a list of faults.
    split at h
    · next hs hd hi hr hc hx hq hpath hon hl =>
      split at h
      · cases h
        exact ⟨hs, hd, hi, hr, hc, hx, hq, hpath, hon, hl⟩
      · cases h
    · cases h
  · intro h
    unfold ofValues
    rw [h.sampling, h.drain, h.delay, h.retention, h.cleanup, h.expiry, h.queue, h.directory,
      h.enabled, h.level]
    exact dif_pos s.retention_ge

section Fields

variable {values : List (String × Json)} {name : String} {v : Json}

theorem read_of_named {α : Type} {default : α} {judge : Json → Field α}
    (h : Json.lastNamed? name values = some v) :
    Field.read values name default judge = judge v := by
  rw [Field.read, h]

theorem readPositive_int {n : Int} (h : 0 < n) : readPositive (.int n) = .ok ⟨n, h⟩ :=
  dif_pos h

theorem readNonnegative_int {n : Int} (h : 0 ≤ n) : readNonnegative (.int n) = .ok ⟨n, h⟩ :=
  dif_pos h

theorem readSwitch_bool (b : Bool) : readSwitch (.bool b) = .ok b := rfl

theorem readLevel_name (l : LogLevel) : readLevel (.str l.name) = .ok l := by
  have hfound : LogLevel.ofName? ((Text.trim l.name.toList).map Text.upper) = some l := by
    cases l <;> decide
  rw [readLevel, hfound]

/-- A path that has been read is in its written form. -/
theorem readPath_of_read {path : String}
    (h : Field.read values "log_dir" "window_logs" readPath = .ok path) :
    readPath (.str path) = .ok path := by
  have hnormal : ∃ text, path = String.ofList (Path.normal text) := by
    unfold Field.read at h
    split at h
    · next v _ =>
      cases v with
      | str s =>
        cases h
        exact ⟨s.toList, rfl⟩
      | _ => cases h
    · cases h
      exact ⟨"window_logs".toList, by decide⟩
  obtain ⟨text, rfl⟩ := hnormal
  show Except.ok (String.ofList (Path.normal (String.ofList (Path.normal text)).toList)) = _
  rw [String.toList_ofList, Path.normal_normal]

end Fields

/-- Settings are read back from their own values, if their path is. -/
theorem ofValues_toValues {s : Settings}
    (hpath : readPath (.str s.logDirectory) = .ok s.logDirectory) :
    ofValues s.toValues = .ok s := by
  apply ofValues_eq_ok_iff.mpr
  constructor
  · exact (read_of_named rfl).trans (readPositive_int s.samplingInterval_pos)
  · exact (read_of_named rfl).trans (readPositive_int s.drainInterval_pos)
  · exact (read_of_named rfl).trans (readNonnegative_int s.initialDelay_nonneg)
  · exact (read_of_named rfl).trans (readPositive_int s.retention_pos)
  · exact (read_of_named rfl).trans (readPositive_int s.cleanupPeriod_pos)
  · exact (read_of_named rfl).trans (readPositive_int s.expiry_pos)
  · exact (read_of_named rfl).trans (readPositive_int s.queueCapacity_pos)
  · exact (read_of_named rfl).trans hpath
  · exact (read_of_named rfl).trans (readSwitch_bool s.writerEnabled)
  · exact (read_of_named rfl).trans (readLevel_name s.logLevel)

/-- Whether settings can be had, from named values or from an environment. -/
def Accepted (s : Settings) : Prop :=
  (∃ values, ofValues values = .ok s) ∨ ∃ env : Environment, env.settings = .ok s

theorem exists_of_bind_eq_ok {ε α β : Type} {x : Except ε α} {f : α → Except ε β} {b : β}
    (h : (x >>= f) = .ok b) : ∃ a, f a = .ok b := by
  cases x with
  | error e => cases h
  | ok a => exact ⟨a, h⟩

theorem eq_ok_of_mapError_eq_ok {ε ε' α : Type} {x : Except ε α} {f : ε → ε'} {a : α}
    (h : x.mapError f = .ok a) : x = .ok a := by
  cases x with
  | error e => cases h
  | ok a' =>
    cases h
    rfl

/-- An environment only supplies values, and may be at fault before it does. -/
theorem Accepted.exists_values {s : Settings} (h : s.Accepted) :
    ∃ values, ofValues values = .ok s := by
  obtain hvalues | ⟨env, h⟩ := h
  · exact hvalues
  · -- Whatever the variables are read as, what comes last is `ofValues`.
    obtain ⟨sampling, h⟩ := exists_of_bind_eq_ok h
    obtain ⟨drain, h⟩ := exists_of_bind_eq_ok h
    obtain ⟨delay, h⟩ := exists_of_bind_eq_ok h
    obtain ⟨retention, h⟩ := exists_of_bind_eq_ok h
    obtain ⟨cleanup, h⟩ := exists_of_bind_eq_ok h
    obtain ⟨expiry, h⟩ := exists_of_bind_eq_ok h
    obtain ⟨queue, h⟩ := exists_of_bind_eq_ok h
    obtain ⟨enabled, h⟩ := exists_of_bind_eq_ok h
    exact ⟨_, eq_ok_of_mapError_eq_ok h⟩

section Pipeline

/-- The pipeline that settings describe, over a directory. -/
def pipeline (s : Settings) (directory : Directory) : Pipeline where
  ingestion :=
    ⟨.empty s.queueCapacity.toNat, ⟨directory, .none, PipelineParameters.standard.strictNames⟩,
      .create ⟨⟨s.samplingInterval, s.samplingInterval_pos⟩, s.drainInterval, s.initialDelay,
        s.retention, s.cleanupPeriod, PipelineParameters.standard.listLimit, s.retention_ge⟩
        s.writerEnabled, .zero⟩
  reader := ⟨⟨s.samplingInterval, s.samplingInterval_pos⟩, s.expiry, 4, by decide, none, ∅⟩
  warehouse := .empty

/-- Whether both delays of the writer have a nearest double-precision number. -/
def HasDelays (s : Settings) : Prop :=
  Binary64.overflows s.drainInterval = false ∧ Binary64.overflows s.initialDelay = false

/-- The queue, the writer and the reader accept whatever the settings do, except for delays that are
too large. -/
theorem create_ofSettings (s : Settings) (directory : Directory) :
    (s.HasDelays → Pipeline.create (.ofSettings s) directory = .ok (s.pipeline directory)) ∧
      (¬s.HasDelays →
        Pipeline.create (.ofSettings s) directory = .error (.writer .delayTooLarge)) := by
  have hqueue : EventQueue.ofCapacity? s.queueCapacity = some (.empty s.queueCapacity.toNat) :=
    if_pos s.queueCapacity_pos
  have hdelays : s.HasDelays ↔
      (Binary64.overflows s.drainInterval || Binary64.overflows s.initialDelay) = false :=
    Bool.or_eq_false_iff.symm
  unfold Pipeline.create PipelineParameters.ofSettings
  rw [hqueue]
  dsimp only
  unfold WriterSettings.create
  -- Of the writer's checks, only the last may fail for settings.
  rw [dif_pos s.samplingInterval_pos, dif_pos s.retention_ge, hdelays, Bool.not_eq_false]
  constructor
  · intro hsmall
    rw [if_neg (Bool.eq_false_iff.mp hsmall)]
    unfold Reader.create
    dsimp only
    rw [dif_pos s.samplingInterval_pos]
    rfl
  · intro hlarge
    rw [if_pos hlarge]

end Pipeline

/-- Settings that are accepted are within their bounds and are accepted again as they are, and the
pipeline that they describe can be built over any directory, except with a delay so large that it
has no nearest double-precision number. -/
theorem accepted_settings_build {s : Settings} (h : s.Accepted) :
    (0 < s.samplingInterval ∧ 0 < s.drainInterval ∧ 0 < s.retention ∧ 0 < s.cleanupPeriod ∧
      0 < s.expiry ∧ 0 < s.queueCapacity ∧ 0 ≤ s.initialDelay ∧
      2 * s.samplingInterval ≤ s.retention ∧
      s.logLevel.name ∈ ["CRITICAL", "ERROR", "WARNING", "INFO", "DEBUG"]) ∧
      ofValues s.toValues = .ok s ∧
      ∀ directory : Directory,
        (s.HasDelays → Pipeline.create (.ofSettings s) directory = .ok (s.pipeline directory)) ∧
        (¬s.HasDelays →
          Pipeline.create (.ofSettings s) directory = .error (.writer .delayTooLarge)) := by
  obtain ⟨values, hvalues⟩ := h.exists_values
  have hlevel : s.logLevel.name ∈ ["CRITICAL", "ERROR", "WARNING", "INFO", "DEBUG"] := by
    cases s.logLevel <;> decide
  have hpath := readPath_of_read (ofValues_eq_ok_iff.mp hvalues).directory
  exact ⟨⟨s.samplingInterval_pos, s.drainInterval_pos, s.retention_pos, s.cleanupPeriod_pos,
    s.expiry_pos, s.queueCapacity_pos, s.initialDelay_nonneg, s.retention_ge, hlevel⟩,
    ofValues_toValues hpath, s.create_ofSettings⟩

section Example

/-- Variables with blanks, an underscore, a sign, leading zeros, a level in lower case and a path
that is not in its written form. -/
def looseEnvironment : Environment :=
  [("WINDOW_SAMPLING_INTERVAL_MS", " 1_5 "), ("WINDOW_DRAIN_INTERVAL_MS", "+700"),
    ("WINDOW_INITIAL_DELAY_MS", "0300"), ("WINDOW_RETENTION_MS", "30"),
    ("WINDOW_CLEANUP_PERIOD_MS", "35"), ("WINDOW_EXPIRY_MS", "40 "),
    ("WINDOW_QUEUE_MAX_SIZE", "45"), ("WINDOW_LOG_DIR", " //logs/./a// "),
    ("WINDOW_LOG_LEVEL", " debug"), ("WINDOW_WRITER_ENABLED", "Off")]

/-- The settings that `looseEnvironment` gives. -/
def looseSettings : Settings where
  samplingInterval := 15
  drainInterval := 700
  initialDelay := 300
  retention := 30
  cleanupPeriod := 35
  expiry := 40
  queueCapacity := 45
  logDirectory := "//logs/a"
  writerEnabled := false
  logLevel := .debug
  samplingInterval_pos := by decide
  drainInterval_pos := by decide
  initialDelay_nonneg := by decide
  cleanupPeriod_pos := by decide
  expiry_pos := by decide
  queueCapacity_pos := by decide
  retention_ge := by decide

theorem loose_environment_builds :
    looseEnvironment.settings = .ok looseSettings ∧
      ofValues looseSettings.toValues = .ok looseSettings ∧
      Pipeline.create (.ofSettings looseSettings) ∅ = .ok (looseSettings.pipeline ∅) := by
  have hread : looseEnvironment.settings = .ok looseSettings := by rfl
  have haccepted : looseSettings.Accepted := .inr ⟨looseEnvironment, hread⟩
  obtain ⟨_, hagain, hbuilds⟩ := accepted_settings_build haccepted
  have hdelays : looseSettings.HasDelays := ⟨by decide +kernel, by decide +kernel⟩
  exact ⟨hread, hagain, (hbuilds ∅).1 hdelays⟩

/-- A delay between two drains, written with 401 digits, that no double-precision number is near. -/
def longSettings : Settings :=
  { looseSettings with
    drainInterval := Nat.pow 10 400
    drainInterval_pos := by decide +kernel }

/-- Settings are accepted whose delay the writer cannot convert. -/
theorem long_delay_is_accepted_and_not_built :
    ¬∀ s : Settings, s.Accepted → ∀ directory : Directory,
      ∃ p, Pipeline.create (.ofSettings s) directory = .ok p := by
  intro h
  have haccepted : longSettings.Accepted := .inl ⟨longSettings.toValues, ofValues_toValues rfl⟩
  have hlarge : Binary64.overflows longSettings.drainInterval = true := by decide +kernel
  obtain ⟨p, hp⟩ := h longSettings haccepted ∅
  have hdelays : ¬longSettings.HasDelays := fun hdelays => Bool.eq_false_iff.mp hdelays.1 hlarge
  rw [(longSettings.create_ofSettings ∅).2 hdelays] at hp
  cases hp

end Example

end Settings

end RequestWindows
