import ChipFamily.Proofs.CommandLine.Grammar
import ChipFamily.Proofs.CommandLine.Outcome

namespace ChipFamily.CommandLine

variable {files : FileSystem} {args more : List String} {text : String} {o : Options}

/-- Arguments after a fault do not mend it, unless the first of them is a value that was missing. -/
theorem Setting.Faulty.append (h : Faulty args text)
    (hm : ∀ next ∈ more.head?, isValue next = false) : Faulty (args ++ more) text := by
  cases h with
  | unknown ha => exact .unknown ha
  | absent ha =>
    cases more with
    | nil => exact .absent ha
    | cons next more => exact .taken ha (hm next rfl)
  | taken ha hn => exact .taken ha hn
  | model hv hname => exact .model hv hname
  | dump hv he => exact .dump hv he

namespace Options

theorem exists_error_append {e : UsageError} (h : ofArgs args = .error e)
    (hm : ∀ next ∈ more.head?, isValue next = false) :
    ∃ e', ofArgs (args ++ more) = .error e' ∧ e'.message = e.message := by
  obtain ⟨words, ss, rest, rfl, hs, hf⟩ :=
    Setting.exists_faulty_of_settings (error_of_map_eq_error h)
  have hmore : words ++ rest ++ more = words ++ (rest ++ more) := List.append_assoc ..
  obtain ⟨e', he, hmessage⟩ :=
    Setting.settings_eq_error_iff.2 ⟨words, ss, rest ++ more, hmore, hs, hf.append hm⟩
  exact ⟨e', by rw [ofArgs, he]; rfl, hmessage⟩

theorem ofArgs_append_json (h : ofArgs args = .ok o) :
    ofArgs (args ++ ["--json"]) = .ok { o with json := true } := by
  have ho : extend {} args = .ok o := h
  exact extend_append ho

theorem ofArgs_append_of_missing {option : String} (h : ofArgs args = .ok o)
    (ho : option ∈ valuedOptions) (hm : ∀ next ∈ more.head?, isValue next = false) :
    ofArgs (args ++ option :: more) = .error (.missingValue option) := by
  have hargs : extend {} args = .ok o := h
  obtain ⟨read, hform⟩ := Setting.exists_form?_valued ho
  have hmore : settings (option :: more) = .error (.missingValue option) := by
    cases more with
    | nil => exact settings_of_absent hform
    | cons next more => exact settings_of_taken hform (hm next rfl) more
  apply (extend_append hargs).trans
  rw [extend, hmore]
  rfl

/-- Nothing before the printing looks at the form. -/
theorem report_with_json (files : FileSystem) (o : Options) (json : Bool) :
    report files { o with json } = o.report files := rfl

end Options

/-- Outcomes that differ at most in the form of what they print. -/
structure Outcome.Reprinted (before after : Outcome) : Prop where
  exitCode : after.exitCode = before.exitCode
  stderr : after.stderr = before.stderr
  stdout_eq_empty_iff : after.stdout = "" ↔ before.stdout = ""

theorem Options.reprinted_run (files : FileSystem) (o : Options) (json : Bool) :
    (o.run files).Reprinted (run files { o with json }) := by
  have hsame := report_with_json files o json
  cases h : o.report files with
  | error e =>
    rw [run_of_report_error h, run_of_report_error (hsame.trans h)]
    exact ⟨rfl, rfl, Iff.rfl⟩
  | ok reported =>
    have h' := hsame.trans h
    refine ⟨?_, ?_, iff_of_false (stdout_ne_empty h') (stdout_ne_empty h)⟩
    · rw [run_of_report h, run_of_report h']
    · rw [run_of_report h, run_of_report h']

theorem mem_append_json {arg : String} (h : arg ≠ "--json") :
    arg ∈ args ++ ["--json"] ↔ arg ∈ args := by
  rw [List.mem_append, List.mem_singleton, or_iff_left h]

theorem asksHelp_append_json : "--help" ∈ args ++ ["--json"] ∨ "-h" ∈ args ++ ["--json"] ↔
    "--help" ∈ args ∨ "-h" ∈ args :=
  or_congr (mem_append_json (by decide)) (mem_append_json (by decide))

theorem reprinted_append_json (files : FileSystem) (args : List String) :
    (run files args).Reprinted (run files (args ++ ["--json"])) := by
  by_cases hh : "--help" ∈ args ∨ "-h" ∈ args
  · rw [run_of_help hh, run_of_help (asksHelp_append_json.2 hh)]
    exact ⟨rfl, rfl, Iff.rfl⟩
  have hh' := fun h => hh (asksHelp_append_json.1 h)
  cases ho : Options.ofArgs args with
  | error e =>
    obtain ⟨e', he', hmessage⟩ :
        ∃ e', Options.ofArgs (args ++ ["--json"]) = .error e' ∧ e'.message = e.message :=
      Options.exists_error_append ho (by decide)
    rw [run_of_error hh ho, run_of_error hh' he', hmessage]
    exact ⟨rfl, rfl, Iff.rfl⟩
  | ok o =>
    rw [run_of_ok hh ho, run_of_ok hh' (Options.ofArgs_append_json ho)]
    exact o.reprinted_run files true

/-- To ask for JSON changes the form of the report and nothing else, whatever stands before it. -/
theorem run_append_json (files : FileSystem) (args : List String) :
    (run files (args ++ ["--json"])).exitCode = (run files args).exitCode ∧
    (run files (args ++ ["--json"])).stderr = (run files args).stderr ∧
    ((run files (args ++ ["--json"])).stdout = "" ↔ (run files args).stdout = "") ∧
    ((run files args).stdout ≠ "" → ∃ o report skipped,
      Options.ofArgs args = .ok o ∧ o.report files = .ok (report, skipped) ∧
      (run files args).stdout = report.print (decide ("--json" ∈ args)) ∧
      (run files (args ++ ["--json"])).stdout = report.print true) ∧
    ∀ o, Options.ofArgs args = .ok o → ∀ option ∈ valuedOptions,
      Options.ofArgs (args ++ [option]) = .error (.missingValue option) ∧
      Options.ofArgs (args ++ [option, "--json"]) = .error (.missingValue option) := by
  have h := reprinted_append_json files args
  refine ⟨h.exitCode, h.stderr, h.stdout_eq_empty_iff, ?_, ?_⟩
  · intro hne
    obtain ⟨hh, o, report, skipped, ho, hreport⟩ := exists_report_of_stdout_ne hne
    have hh' := fun h => hh (asksHelp_append_json.1 h)
    rw [run_of_ok hh ho, run_of_ok hh' (Options.ofArgs_append_json ho), ← Options.json_eq ho]
    refine ⟨o, report, skipped, ho, hreport, ?_, ?_⟩
    · rw [Options.run_of_report hreport]
    · rw [Options.run_of_report ((Options.report_with_json files o true).trans hreport)]
  · intro o ho option hoption
    constructor
    · exact Options.ofArgs_append_of_missing ho hoption (by decide)
    · exact Options.ofArgs_append_of_missing ho hoption (by decide)

end ChipFamily.CommandLine
