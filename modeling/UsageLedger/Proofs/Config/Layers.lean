import Mathlib.Data.List.Nodup
import UsageLedger.Config.Load
import UsageLedger.Proofs.Config.Retyping

/-! The layers of a configuration: the standard values, over them what the file says, and over that what the
environment says. In a text field the text of the file arrives as it stands there, and the value of a variable as
the text of what it reads as. -/

namespace UsageLedger

/-! ### Settings under plain names -/

namespace Settings

/-- Whether a key is a name and no path below one. -/
structure IsName (key : String) : Prop where
  nonempty : key.toList ≠ []
  plain : ∀ c ∈ key.toList, isNameChar c = true

/-- A setting replaces the one of its own name. Beside it, a key that is a path makes its name compound. -/
theorem get?_set {key : String} (h : IsName key) (s : Settings) (other : String) (value : Setting) :
    (s.set other value).get? key = some .compound ∨
      (s.set other value).get? key = if other = key then some value else s.get? key := by
  unfold set get?
  dsimp only
  split_ifs with hpath hkey hkey
  · -- A path has a character behind its name, and a plain name has none.
    exfalso
    subst hkey
    have htail : other.toList.dropWhile isNameChar = [] := List.dropWhile_eq_nil_iff.2 h.plain
    rw [htail, show isPathTail [] = false from rfl, Bool.and_false] at hpath
    cases hpath
  · rw [List.lookup_cons]
    split
    · exact .inl rfl
    · exact .inr rfl
  · rw [List.lookup_cons, hkey, beq_self_eq_true]
    exact .inr rfl
  · rw [List.lookup_cons, beq_false_of_ne (Ne.symm hkey)]
    exact .inr rfl

end Settings

/-! ### The last word of the environment -/

namespace Environment

/-- The value of the last variable that sets a key, whatever the case of its name. -/
def last? (env : Environment) (key : String) : Option String :=
  ((env.filter fun entry => settingKey? entry.1 = some key).getLast?).map Prod.snd

theorem last?_concat (env : Environment) (entry : String × String) (key : String) :
    last? (env ++ [entry]) key = if settingKey? entry.1 = some key then some entry.2 else last? env key := by
  unfold last?
  rw [List.filter_append]
  split_ifs with h
  · rw [List.filter_cons_of_pos (by simpa using h), List.filter_nil, List.getLast?_concat]
    rfl
  · rw [List.filter_cons_of_neg (by simpa using h), List.filter_nil, List.append_nil]

theorem apply_concat_of_none {entry : String × String} (h : settingKey? entry.1 = none) (env : Environment)
    (s : Settings) : apply (env ++ [entry]) s = apply env s := by
  simp only [apply, List.foldl_append, List.foldl_cons, List.foldl_nil, h]

theorem apply_concat_of_some {entry : String × String} {key : String} (h : settingKey? entry.1 = some key)
    (env : Environment) (s : Settings) :
    apply (env ++ [entry]) s = Settings.set (apply env s) key (typed entry.2) := by
  simp only [apply, List.foldl_append, List.foldl_cons, List.foldl_nil, h]

/-- Over the settings of the file stands the last word of the environment, where it says anything. -/
theorem get?_apply {key : String} (hname : Settings.IsName key) (env : Environment) (s : Settings)
    (h : Settings.get? (apply env s) key ≠ some .compound) :
    Settings.get? (apply env s) key = ((env.last? key).map typed).or (s.get? key) := by
  induction env using List.reverseRecOn with
  | nil => rfl
  | append_singleton env entry ih =>
      rw [last?_concat]
      cases hother : settingKey? entry.1 with
      | none =>
          rw [apply_concat_of_none hother] at h ⊢
          rw [if_neg (by simp)]
          exact ih h
      | some other =>
          rw [apply_concat_of_some hother] at h ⊢
          have hset := (Settings.get?_set hname (apply env s) other (typed entry.2)).resolve_left h
          rw [hset] at h ⊢
          by_cases hkey : other = key
          · rw [if_pos hkey, if_pos (by rw [hkey])]
            rfl
          · rw [if_neg hkey] at h ⊢
            rw [if_neg (by simpa using hkey)]
            exact ih h

/-- A file of further variables adds some that are not set. -/
theorem readLines_eq_append (env : Environment) (lines : List (Option (List Char))) :
    ∃ added, readLines env lines = env ++ added ∧ ∀ entry ∈ added, get? env entry.1 = none := by
  induction lines generalizing env with
  | nil => exact ⟨[], (List.append_nil _).symm, nofun⟩
  | cons line lines ih =>
      cases line with
      | none => exact ⟨[], (List.append_nil _).symm, nofun⟩
      | some line =>
          unfold readLines
          split
          · exact ⟨[], (List.append_nil _).symm, nofun⟩
          · exact ih env
          · rename_i name value _
            split_ifs with hset
            · exact ih env
            · obtain ⟨added, hadded, hnew⟩ := ih (env ++ [(name, value)])
              refine ⟨(name, value) :: added, by rw [hadded, List.append_assoc]; rfl, fun entry hentry => ?_⟩
              rcases List.mem_cons.1 hentry with rfl | hentry
              · exact Option.not_isSome_iff_eq_none.1 hset
              · exact (Option.or_eq_none_iff.1 (List.lookup_append.symm.trans (hnew entry hentry))).1

end Environment

namespace Config

open Environment (arriving typed settingKey? Canonical)

/-! ### Text fields -/

/-- The fields of a configuration that hold text. -/
inductive TextField
  | brokerUrl
  | eventSubject
  | alertSubject
  | letterSubject
  | storeUrl
  | keyspace
  deriving DecidableEq, Repr

namespace TextField

/-- The name of a field in a file. -/
def key : TextField → String
  | brokerUrl => "nats_url"
  | eventSubject => "fee_request_subject"
  | alertSubject => "notify_subject"
  | letterSubject => "dead_letter_subject"
  | storeUrl => "redis_url"
  | keyspace => "redis_prefix"

/-- The variable that sets a field. -/
def variableName : TextField → String
  | brokerUrl => "TALLY_NATS_URL"
  | eventSubject => "TALLY_FEE_REQUEST_SUBJECT"
  | alertSubject => "TALLY_NOTIFY_SUBJECT"
  | letterSubject => "TALLY_DEAD_LETTER_SUBJECT"
  | storeUrl => "TALLY_REDIS_URL"
  | keyspace => "TALLY_REDIS_PREFIX"

/-- What a configuration holds in a field. -/
def of (c : Config) : TextField → Option String
  | brokerUrl => some c.brokerUrl
  | eventSubject => some c.eventSubject
  | alertSubject => some c.alertSubject
  | letterSubject => some c.letterSubject
  | storeUrl => c.storeUrl
  | keyspace => some c.keyspace

theorem isName_key (f : TextField) : Settings.IsName f.key := by
  cases f <;> exact ⟨by decide, List.all_eq_true.1 (by decide)⟩

theorem settingKey?_variableName (f : TextField) : settingKey? f.variableName = some f.key := by
  cases f <;> decide +kernel

end TextField

theorem field_asText? {s : Settings} {name text standard : String}
    (h : field s name Setting.asText? standard = some text) : s.get? name ≠ some .compound ∧
      some text = ((s.get? name).map Setting.asText?).getD (some standard) := by
  unfold field at h
  cases hget : s.get? name with
  | none =>
      rw [hget] at h
      exact ⟨nofun, h.symm⟩
  | some value =>
      rw [hget] at h
      refine ⟨fun hcompound => ?_, h.symm⟩
      rw [Option.some.inj hcompound] at h
      cases h

theorem asOptionalText?_of_ne_compound {value : Setting} (h : value ≠ .compound) :
    value.asOptionalText? = some value.asText? := by
  cases value with
  | compound => exact absurd rfl h
  | _ => rfl

theorem field_asOptionalText? {s : Settings} {name : String} {text standard : Option String}
    (h : field s name Setting.asOptionalText? standard = some text) : s.get? name ≠ some .compound ∧
      text = ((s.get? name).map Setting.asText?).getD standard := by
  unfold field at h
  cases hget : s.get? name with
  | none =>
      rw [hget] at h
      exact ⟨nofun, (Option.some.inj h).symm⟩
  | some value =>
      rw [hget] at h
      have hplain : value ≠ .compound := by
        rintro rfl
        cases h
      dsimp only at h
      rw [asOptionalText?_of_ne_compound hplain] at h
      exact ⟨fun hcompound => hplain (Option.some.inj hcompound), (Option.some.inj h).symm⟩

/-- A text field holds the text of its setting, or its standard value where nothing sets it. -/
theorem of_ofSettings? {s : Settings} {c : Config} (h : ofSettings? s = some c) (f : TextField) :
    s.get? f.key ≠ some .compound ∧ f.of c = ((s.get? f.key).map Setting.asText?).getD (f.of standard) := by
  simp only [ofSettings?, bind, Option.bind_eq_some_iff, pure, Option.some.injEq] at h
  obtain ⟨_, hbroker, _, hevent, _, halert, _, hletter, _, -, _, -, _, -, _, -, _, hstore, _, hkeyspace, rfl⟩ := h
  cases f with
  | brokerUrl => exact field_asText? hbroker
  | eventSubject => exact field_asText? hevent
  | alertSubject => exact field_asText? halert
  | letterSubject => exact field_asText? hletter
  | storeUrl => exact field_asOptionalText? hstore
  | keyspace => exact field_asText? hkeyspace

/-! ### Loading -/

/-- The variables that count: those given, and those that the file of further variables adds. -/
def environment (given : Environment) (files : Directory) : Environment :=
  ((files.read? variablesFile).map given.withFile).getD given

theorem environment_eq_append (given : Environment) (files : Directory) : ∃ added,
    environment given files = given ++ added ∧ ∀ entry ∈ added, given.get? entry.1 = none := by
  unfold environment
  cases files.read? variablesFile with
  | none => exact ⟨[], (List.append_nil _).symm, nofun⟩
  | some contents => exact Environment.readLines_eq_append _ _

/-- A given variable has the last word on its field unless another spelling of its name is set as well. The file
of further variables does not replace it. -/
theorem last?_environment {given : Environment} {files : Directory} {f : TextField} {value : String}
    (hgiven : given.get? f.variableName = some value) (hnames : (given.map Prod.fst).Nodup)
    (hspelling : ∀ entry ∈ environment given files, settingKey? entry.1 = some f.key → entry.1 = f.variableName) :
    (environment given files).last? f.key = some value := by
  obtain ⟨added, henv, hnew⟩ := environment_eq_append given files
  rw [henv] at hspelling ⊢
  have hmem : (f.variableName, value) ∈ given := by
    obtain ⟨before, after, rfl, -⟩ := List.lookup_eq_some_iff.1 hgiven
    simp
  have hnone : added.filter (fun entry => settingKey? entry.1 = some f.key) = [] := by
    refine List.filter_eq_nil_iff.2 fun entry hentry hkey => ?_
    have hname := hspelling entry (List.mem_append_right _ hentry) (of_decide_eq_true hkey)
    have := hnew entry hentry
    rw [hname, hgiven] at this
    cases this
  have hsome : given.filter (fun entry => settingKey? entry.1 = some f.key) ≠ [] :=
    List.ne_nil_of_mem (List.mem_filter.2 ⟨hmem, decide_eq_true f.settingKey?_variableName⟩)
  unfold Environment.last?
  rw [List.filter_append, hnone, List.append_nil, List.getLast?_eq_some_getLast hsome, Option.map_some]
  obtain ⟨hlast, hkey⟩ := List.mem_filter.1 (List.getLast_mem hsome)
  have hname := hspelling _ (List.mem_append_left _ hlast) (of_decide_eq_true hkey)
  rw [List.inj_on_of_nodup_map hnames hlast hmem hname]

/-- The settings of the file at the configured path; none if it cannot be read. -/
def fileSettings? (given : Environment) (files : Directory) : Option Settings :=
  match files.find? (((environment given files).get? pathVariable).getD standardPath) with
  | none => some []
  | some (format, contents) => readFile? format contents

/-- What a text field holds that no variable sets. -/
def fileText (s : Settings) (f : TextField) : Option String :=
  ((s.get? f.key).map Setting.asText?).getD (f.of standard)

variable {given : Environment} {files : Directory} {c : Config}

theorem exists_settings_of_load (h : load given files = .ok c) : ∃ s, fileSettings? given files = some s ∧
    ofSettings? ((environment given files).apply s) = some c := by
  unfold load at h
  dsimp only at h
  split at h
  · cases h
  · rename_i s hfile
    split at h
    · cases h
    · rename_i loaded hsettings
      dsimp only [validate] at h
      split at h
      · cases h
      · exact ⟨s, hfile, hsettings.trans (congrArg some (Except.ok.inj h))⟩

/-- What a loaded configuration holds in a text field. -/
theorem of_load (h : load given files = .ok c) (f : TextField) : ∃ s, fileSettings? given files = some s ∧
    f.of c = (((environment given files).last? f.key).map arriving).or (fileText s f) := by
  obtain ⟨s, hfile, hsettings⟩ := exists_settings_of_load h
  refine ⟨s, hfile, ?_⟩
  obtain ⟨hplain, hof⟩ := of_ofSettings? hsettings f
  rw [hof, Environment.get?_apply f.isName_key _ _ hplain]
  cases (environment given files).last? f.key with
  | none => rfl
  | some value => exact Environment.asText?_typed value

/-- A text that the file gives a field arrives as it is, unless a variable sets the field. -/
theorem text_of_file {s : Settings} {text : String} (hload : load given files = .ok c) (f : TextField)
    (hnone : (environment given files).last? f.key = none) (hfile : fileSettings? given files = some s)
    (htext : s.get? f.key = some (.text text)) : f.of c = some text := by
  obtain ⟨loaded, hloaded, hof⟩ := of_load hload f
  obtain rfl := Option.some.inj (hfile.symm.trans hloaded)
  rw [hof, hnone, fileText, htext]
  rfl

/-- The last variable that sets a text field gives it the text of what its value reads as, whatever the file and
the other variables say. So its value arrives as it is exactly if it is written that way. -/
theorem text_of_last_variable (hload : load given files = .ok c) (f : TextField) {value : String}
    (hlast : (environment given files).last? f.key = some value) :
    f.of c = some (arriving value) ∧ (f.of c = some value ↔ Canonical value) := by
  obtain ⟨s, -, hof⟩ := of_load hload f
  rw [hlast] at hof
  refine ⟨hof, ?_⟩
  rw [hof, Option.map_some, Option.some_or, Option.some.injEq, Environment.arriving_eq_self_iff]

/-- An environment that gives two text fields their values, one of them in digits with leading zeros. -/
def spelled : Environment := [("TALLY_NATS_URL", "nats://broker:4222"), ("TALLY_REDIS_PREFIX", "007")]

/-- A directory that says something else about one of the fields, and gives two more their values. -/
def layered : Directory :=
  [(".env", "TALLY_REDIS_PREFIX=12\nTALLY_REDIS_URL=redis://cache\n"),
    ("tally.toml", "redis_prefix = \"fees\"\nnotify_subject = \"0042\"\n")]

theorem spelled_reaches_its_fields : ∃ c, load spelled layered = .ok c ∧
    TextField.brokerUrl.of c = some "nats://broker:4222" ∧ TextField.keyspace.of c = some "7" ∧
    (TextField.keyspace.of c = some "007" ↔ Canonical "007") := by
  have hload : load spelled layered = .ok { standard with
      brokerUrl := "nats://broker:4222"
      alertSubject := "0042"
      storeUrl := some "redis://cache"
      keyspace := "7" } := by decide +kernel
  have hbroker : (environment spelled layered).last? TextField.brokerUrl.key = some "nats://broker:4222" := by
    decide +kernel
  have hkeyspace : (environment spelled layered).last? TextField.keyspace.key = some "007" := by decide +kernel
  obtain ⟨harrives, hexact⟩ := text_of_last_variable hload .keyspace hkeyspace
  exact ⟨_, hload, (text_of_last_variable hload .brokerUrl hbroker).1.trans (by decide +kernel),
    harrives.trans (by decide +kernel), hexact⟩

/-- Digits with leading zeros do not arrive as they are. -/
theorem leading_zeros_do_not_arrive : ∃ c, load [("TALLY_REDIS_PREFIX", "007")] [] = .ok c ∧
    TextField.keyspace.of c ≠ some "007" :=
  ⟨{ standard with keyspace := "7" }, by decide +kernel, by decide⟩

end Config

end UsageLedger
