import ChipFamily.Proofs.CommandLine.Arguments
import ChipFamily.Proofs.Text.Cut

namespace ChipFamily.CommandLine

/-- The options that take a value. -/
def valuedOptions : List String := ["--rom", "--model", "--boot", "--dump", "--query"]

def loneOptions : List String := ["--no-font", "--json"]

/-- Arguments that begin with no option or with a bad value, and what is said of the fault. -/
inductive Setting.Faulty : List String → String → Prop where
  | unknown {a : String} {args : List String} (ha : a ∉ valuedOptions ++ loneOptions) :
      Faulty (a :: args) ("Unknown argument: " ++ a)
  | absent {a : String} (ha : a ∈ valuedOptions) : Faulty [a] ("Missing value for " ++ a)
  | taken {a next : String} {args : List String} (ha : a ∈ valuedOptions)
      (hn : isValue next = false) : Faulty (a :: next :: args) ("Missing value for " ++ a)
  | model {name : String} {args : List String} (hv : isValue name)
      (hm : Model.ofName? name = none) :
      Faulty ("--model" :: name :: args)
        ("Unknown model: " ++ name ++ " (expected chip8, eti660, superchip, xochip)")
  | dump {text : String} {args : List String} (hv : isValue text)
      (he : Extent.ofString? text = none) :
      Faulty ("--dump" :: text :: args)
        ("Invalid dump range: " ++ text ++ " (expected <addr>[:<len>])")

/-- Reads more arguments into options. -/
def Options.extend (o : Options) (args : List String) : Except UsageError Options :=
  (settings args).map (List.foldl set o)

variable {words args : List String} {a : String} {s : Setting} {ss : List Setting} {o : Options}
  {e : UsageError} {text : String} {read : String → Except UsageError Setting}

theorem isValue_iff {arg : String} : isValue arg = true ↔ ¬ "--".toList <+: arg.toList := by
  rw [isValue, Option.isNone_iff_eq_none, after?_eq_none_iff]

theorem settings_of_alone (h : Setting.form? a = some (.alone s)) (args : List String) :
    settings (a :: args) = (settings args).map (s :: ·) := by
  rw [settings, h]
  cases settings args <;> rfl

theorem settings_of_valued {value : String} (h : Setting.form? a = some (.valued read))
    (hv : isValue value) (args : List String) :
    settings (a :: value :: args) = (read value).bind fun s => (settings args).map (s :: ·) := by
  rw [settings, h]
  simp only [hv, if_true]
  cases read value with
  | error e => rfl
  | ok s => cases settings args <;> rfl

theorem settings_of_taken {next : String} (h : Setting.form? a = some (.valued read))
    (hn : isValue next = false) (args : List String) :
    settings (a :: next :: args) = .error (.missingValue a) := by
  rw [settings, h]
  simp only [hn, Bool.false_eq_true, if_false]

theorem settings_of_absent (h : Setting.form? a = some (.valued read)) :
    settings [a] = .error (.missingValue a) := by
  rw [settings, h]

theorem settings_of_unknown (h : Setting.form? a = none) (args : List String) :
    settings (a :: args) = .error (.unknownArgument a) := by
  rw [settings, h]

namespace Setting

theorem form?_eq_none_iff : form? a = none ↔ a ∉ valuedOptions ++ loneOptions := by
  unfold form?
  split
  all_goals simp_all [valuedOptions, loneOptions]

theorem exists_form?_valued (ha : a ∈ valuedOptions) : ∃ read, form? a = some (.valued read) := by
  simp only [valuedOptions, List.mem_cons, List.not_mem_nil, or_false] at ha
  obtain rfl | rfl | rfl | rfl | rfl := ha
  all_goals exact ⟨_, rfl⟩

theorem mem_valuedOptions (h : form? a = some (.valued read)) : a ∈ valuedOptions := by
  unfold form? at h
  split at h <;> cases h
  all_goals decide

theorem faulty_of_read {value : String} (h : form? a = some (.valued read)) (hv : isValue value)
    (he : read value = .error e) (args : List String) : Faulty (a :: value :: args) e.message := by
  unfold form? at h
  split at h <;> cases h
  · cases he
  · dsimp only at he
    split at he <;> cases he
    exact .model hv ‹_›
  · cases he
  · dsimp only at he
    split at he <;> cases he
    exact .dump hv ‹_›
  · cases he

theorem Written.settings_append (h : Written words s) (args : List String) :
    settings (words ++ args) = (settings args).map (s :: ·) := by
  cases h with
  | noFont | json => exact settings_of_alone rfl args
  | rom hv | boot hv | query hv =>
    refine (settings_of_valued rfl hv args).trans ?_
    rfl
  | model hv hm =>
    refine (settings_of_valued rfl hv args).trans ?_
    simp only [hm]
    rfl
  | dump hv he =>
    refine (settings_of_valued rfl hv args).trans ?_
    simp only [he]
    rfl

theorem Spelled.settings_append (h : Spelled words ss) (args : List String) :
    settings (words ++ args) = (settings args).map (ss ++ ·) := by
  induction h with
  | nil =>
    rw [List.nil_append]
    cases settings args <;> rfl
  | cons hw _ ih =>
    rw [List.append_assoc, hw.settings_append, ih]
    cases settings args <;> rfl

theorem settings_eq_ok_iff : settings args = .ok ss ↔ Spelled args ss := by
  constructor
  · exact spelled_of_settings
  · intro h
    have hs := h.settings_append []
    rw [List.append_nil] at hs
    rw [hs]
    exact congrArg Except.ok ss.append_nil

theorem Faulty.exists_error (h : Faulty args text) :
    ∃ e, settings args = .error e ∧ e.message = text := by
  cases h with
  | unknown ha => exact ⟨_, settings_of_unknown (form?_eq_none_iff.2 ha) _, rfl⟩
  | absent ha =>
    obtain ⟨read, hf⟩ := exists_form?_valued ha
    exact ⟨_, settings_of_absent hf, rfl⟩
  | taken ha hn =>
    obtain ⟨read, hf⟩ := exists_form?_valued ha
    exact ⟨_, settings_of_taken hf hn _, rfl⟩
  | model hv hm =>
    refine ⟨.unknownModel _, (settings_of_valued rfl hv _).trans ?_, rfl⟩
    simp only [hm]
    rfl
  | dump hv he =>
    refine ⟨.badRange _, (settings_of_valued rfl hv _).trans ?_, rfl⟩
    simp only [he]
    rfl

/-- What is read before the first fault is options, one after the other. -/
theorem exists_faulty_of_settings (h : settings args = .error e) :
    ∃ words ss rest, args = words ++ rest ∧ Spelled words ss ∧ Faulty rest e.message := by
  fun_induction settings args with
  | case1 => cases h
  | case2 a args hform =>
    cases h
    exact ⟨[], [], _, rfl, .nil, .unknown (form?_eq_none_iff.1 hform)⟩
  | case3 a args s hform ih =>
    obtain he | ⟨_, _, he⟩ := error_or_of_bind_eq_error h
    · obtain ⟨words, ss, rest, rfl, hs, hf⟩ := ih he
      exact ⟨_, _, rest, rfl, .cons (written_of_form?_alone hform) hs, hf⟩
    · cases he
  | case4 a read hform =>
    cases h
    exact ⟨[], [], _, rfl, .nil, .absent (mem_valuedOptions hform)⟩
  | case5 a read hform value args hv ih =>
    obtain he | ⟨s, hs, hbind⟩ := error_or_of_bind_eq_error h
    · exact ⟨[], [], _, rfl, .nil, faulty_of_read hform hv he args⟩
    obtain he | ⟨_, _, he⟩ := error_or_of_bind_eq_error hbind
    · obtain ⟨words, ss, rest, rfl, hss, hf⟩ := ih he
      exact ⟨_, _, rest, rfl, .cons (written_of_form?_valued hform hv hs) hss, hf⟩
    · cases he
  | case6 a read hform value args hv =>
    cases h
    exact ⟨[], [], _, rfl, .nil, .taken (mem_valuedOptions hform) (Bool.not_eq_true _ ▸ hv)⟩

theorem settings_eq_error_iff :
    (∃ e, settings args = .error e ∧ e.message = text) ↔
      ∃ words ss rest, args = words ++ rest ∧ Spelled words ss ∧ Faulty rest text := by
  constructor
  · rintro ⟨e, he, rfl⟩
    exact exists_faulty_of_settings he
  · rintro ⟨words, ss, rest, rfl, hs, hf⟩
    obtain ⟨e, he, hm⟩ := hf.exists_error
    refine ⟨e, ?_, hm⟩
    rw [hs.settings_append, he]
    rfl

end Setting

namespace Options

theorem extend_append {more : List String} {o' : Options} (h : o.extend args = .ok o') :
    o.extend (args ++ more) = o'.extend more := by
  obtain ⟨ss, hs, rfl⟩ := exists_of_map_eq_ok h
  rw [extend, (Setting.spelled_of_settings hs).settings_append, extend]
  cases settings more with
  | error e => rfl
  | ok more => exact congrArg Except.ok List.foldl_append

theorem ofArgs_eq_ok_iff :
    ofArgs args = .ok o ↔ ∃ ss, Setting.Spelled args ss ∧ ss.foldl set {} = o := by
  constructor
  · intro h
    obtain ⟨ss, hs, ho⟩ := exists_of_map_eq_ok h
    exact ⟨ss, Setting.settings_eq_ok_iff.1 hs, ho⟩
  · rintro ⟨ss, hs, rfl⟩
    rw [ofArgs, Setting.settings_eq_ok_iff.2 hs]
    rfl

theorem mapError_ofArgs_eq_error_iff :
    (ofArgs args).mapError UsageError.message = .error text ↔
      ∃ e, settings args = .error e ∧ e.message = text := by
  constructor
  · intro h
    obtain ⟨e, he, hm⟩ := exists_of_mapError_eq_error h
    exact ⟨e, error_of_map_eq_error he, hm⟩
  · rintro ⟨e, he, rfl⟩
    rw [ofArgs, he]
    rfl

/-- The arguments that are read are spelled settings, and of others the first fault is named. -/
theorem ofArgs_reads_grammar (args : List String) :
    (∀ o, ofArgs args = .ok o ↔ ∃ ss, Setting.Spelled args ss ∧ ss.foldl set {} = o) ∧
    (∀ o, ofArgs args = .ok o → o.Reads args) ∧
    (∀ text, (ofArgs args).mapError UsageError.message = .error text ↔
      ∃ words ss rest, args = words ++ rest ∧ Setting.Spelled words ss ∧
        Setting.Faulty rest text) ∧
    (∀ o more, ofArgs args = .ok o → ofArgs (args ++ more) = o.extend more) ∧
    ∀ arg, isValue arg = true ↔ ¬ "--".toList <+: arg.toList := by
  refine ⟨fun o => ofArgs_eq_ok_iff, fun o => reads_of_ofArgs, ?_, ?_, fun arg => isValue_iff⟩
  · intro text
    rw [mapError_ofArgs_eq_error_iff, Setting.settings_eq_error_iff]
  · intro o more h
    have ho : extend {} args = .ok o := h
    exact extend_append ho

/-- A dash makes no option, and of two faults the first one is named. -/
example :
    ofArgs ["--rom", "-h", "--no-font", "--boot", "b"] =
        .ok { rom := some "-h", boot := .file "b" } ∧
      ofArgs ["--json", "--dump", "$1000:x", "--rom"] = .error (.badRange "$1000:x") := by
  exact ⟨rfl, rfl⟩

end Options
end ChipFamily.CommandLine
