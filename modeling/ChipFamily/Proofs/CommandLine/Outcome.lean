import ChipFamily.Proofs.CommandLine.Arguments
import ChipFamily.Proofs.CommandLine.ReportForms
import ChipFamily.Proofs.Machine.StartUp

namespace ChipFamily.CommandLine

/-- A boot file that cannot be read, or that reaches past the entry point. -/
def BootSource.Unusable (files : FileSystem) (model : Model) (source : BootSource) : Prop :=
  ∃ path, source = .file path ∧
    ∀ bytes, files path = .ok bytes → model.entry.toNat < bytes.length

/-- A program file that cannot be read, or that leaves no byte free above the program. -/
def Unloadable (files : FileSystem) (model : Model) (path : String) : Prop :=
  ∀ image, files path = .ok image → model.memorySize - model.entry.toNat ≤ image.length

variable {files : FileSystem} {args : List String} {o : Options}

theorem asksHelp_iff : asksHelp args = true ↔ "--help" ∈ args ∨ "-h" ∈ args := by
  simp only [asksHelp, List.any_eq_true, Bool.or_eq_true, decide_eq_true_eq]
  constructor
  · rintro ⟨arg, hmem, rfl | rfl⟩
    · exact .inl hmem
    · exact .inr hmem
  · rintro (hmem | hmem)
    · exact ⟨_, hmem, .inl rfl⟩
    · exact ⟨_, hmem, .inr rfl⟩

theorem run_of_help (h : "--help" ∈ args ∨ "-h" ∈ args) :
    run files args = { stderr := unlines usage } :=
  if_pos (asksHelp_iff.2 h)

theorem run_of_error {e : UsageError} (hh : ¬ ("--help" ∈ args ∨ "-h" ∈ args))
    (h : Options.ofArgs args = .error e) :
    run files args = { exitCode := 1, stderr := e.message ++ "\n" } := by
  rw [run, if_neg fun ha => hh (asksHelp_iff.1 ha), h, ← unlines_singleton]

theorem run_of_ok (hh : ¬ ("--help" ∈ args ∨ "-h" ∈ args)) (h : Options.ofArgs args = .ok o) :
    run files args = o.run files := by
  rw [run, if_neg fun ha => hh (asksHelp_iff.1 ha), h]

namespace Options

/-- The program that a machine with these options is started with. -/
def program? (files : FileSystem) (o : Options) : Option (List UInt8) :=
  o.rom.bind fun path => o.model.loadable (files.file path)

theorem machine_eq_build {boot : Boot} (hb : o.boot.boot files = .ok boot) :
    o.machine files = (Machine.build ⟨o.model, boot⟩).mapError .badMachine := by
  rw [machine, hb]
  rfl

theorem machine_of_unusable (h : o.boot.Unusable files o.model) :
    ∃ e, o.machine files = .error e := by
  obtain ⟨path, hsource, hbytes⟩ := h
  cases hf : files path with
  | error cause =>
    refine ⟨.unreadableBoot path cause, ?_⟩
    simp only [machine, hsource, BootSource.boot, hf]
    rfl
  | ok bytes =>
    have hb : o.boot.boot files = .ok (.image bytes) := by
      simp only [hsource, BootSource.boot, hf]
    have hlong : ¬ (Setup.mk o.model (.image bytes)).bootBytes.length ≤ o.model.entry.toNat :=
      Nat.not_le_of_lt (hbytes bytes hf)
    exact ⟨_, by rw [machine_eq_build hb, Machine.build_of_not_le hlong]; rfl⟩

/-- Of the boot images only one from a file can be unusable. -/
theorem exists_boot_of_usable (h : ¬ o.boot.Unusable files o.model) :
    ∃ boot, o.boot.boot files = .ok boot ∧
      (Setup.mk o.model boot).bootBytes.length ≤ o.model.entry.toNat := by
  cases hsource : o.boot with
  | font => exact ⟨.font, rfl, Setup.length_bootBytes_font o.model⟩
  | empty => exact ⟨.empty, rfl, Nat.zero_le _⟩
  | file path =>
    cases hf : files path with
    | error cause =>
      refine absurd ⟨path, hsource, ?_⟩ h
      intro bytes hbytes
      cases hf.symm.trans hbytes
    | ok bytes =>
      refine ⟨.image bytes, by simp only [BootSource.boot, hf], Nat.not_lt.1 fun hlong => h ?_⟩
      refine ⟨path, hsource, ?_⟩
      intro bytes' hbytes
      obtain rfl : bytes = bytes' := Except.ok.inj (hf.symm.trans hbytes)
      exact hlong

theorem machine_of_boot {boot : Boot} (hb : o.boot.boot files = .ok boot)
    (hle : (Setup.mk o.model boot).bootBytes.length ≤ o.model.entry.toNat) :
    o.machine files = .ok (Machine.fresh ⟨o.model, boot⟩) := by
  rw [machine_eq_build hb, Machine.build_of_le hle]
  rfl

theorem started_fresh {boot : Boot}
    (hle : (Setup.mk o.model boot).bootBytes.length ≤ o.model.entry.toNat) :
    o.started files (Machine.fresh ⟨o.model, boot⟩) =
      ((o.program? files).isSome, Machine.startUp ⟨o.model, boot⟩ (o.program? files)) := by
  rw [started, program?]
  cases o.rom with
  | none => rfl
  | some path => exact Machine.start_fresh hle (files.file path)

theorem report_of_unusable (h : o.boot.Unusable files o.model) :
    ∃ e, o.report files = .error e := by
  obtain ⟨e, he⟩ := machine_of_unusable h
  refine ⟨e, ?_⟩
  rw [report, he]
  rfl

theorem report_of_machine {m : Machine} (h : o.machine files = .ok m) :
    o.report files = .ok
      (Report.ofMachine (o.started files m).2 o (o.started files m).1,
        skipped (o.started files m).2 o) := by
  rw [report, h]
  rfl

/-- With a usable boot image the report is on the machine just started. -/
theorem report_of_boot {boot : Boot} (hb : o.boot.boot files = .ok boot)
    (hle : (Setup.mk o.model boot).bootBytes.length ≤ o.model.entry.toNat) :
    o.report files = .ok
      (Report.ofMachine (Machine.startUp ⟨o.model, boot⟩ (o.program? files)) o
        (o.program? files).isSome,
        skipped (Machine.startUp ⟨o.model, boot⟩ (o.program? files)) o) := by
  rw [report_of_machine (machine_of_boot hb hle), started_fresh hle]

theorem run_of_report_error {e : SetupError} (h : o.report files = .error e) :
    o.run files = { exitCode := 1, stderr := unlines [e.message] } := by
  rw [run, h]

section Reported

variable {report : Report} {skipped : List RangeError}

theorem run_of_report (h : o.report files = .ok (report, skipped)) :
    o.run files =
      { exitCode := if o.rom.isSome && !report.programLoaded then 1 else 0
        stdout := report.print o.json
        stderr := unlines (skipped.map fun e => s!"Dump skipped: {e.message}") } := by
  rw [run, h]

theorem stdout_ne_empty (h : o.report files = .ok (report, skipped)) :
    (o.run files).stdout ≠ "" := by
  rw [run_of_report h]
  exact report.print_ne_empty o.json

theorem exitCode_of_report (h : o.report files = .ok (report, skipped)) :
    ((o.run files).exitCode = 1 ↔ (o.rom.isSome && !report.programLoaded) = true) ∧
    ((o.run files).exitCode = 0 ↔ ¬ (o.rom.isSome && !report.programLoaded) = true) := by
  rw [run_of_report h]
  dsimp only
  cases o.rom.isSome && !report.programLoaded <;> decide

end Reported

theorem exitCode_of_dumps_queries (files : FileSystem) (o : Options) (dumps : List Extent)
    (queries : List String) :
    (run files { o with dumps, queries }).exitCode = (o.run files).exitCode := by
  have hm : machine files { o with dumps, queries } = o.machine files := rfl
  rw [run, run, report, report, hm]
  cases o.machine files <;> rfl

theorem loadable_eq_none_iff {model : Model} {path : String} :
    model.loadable (files.file path) = none ↔ Unloadable files model path := by
  rw [Option.eq_none_iff_forall_ne_some]
  constructor
  · intro h image hc
    refine Nat.not_lt.1 fun hl => h image (Model.loadable_eq_some_iff.2 ⟨hc, ?_⟩)
    omega
  · intro h image hp
    obtain ⟨hc, hl⟩ := Model.loadable_eq_some_iff.1 hp
    have hle := h image hc
    omega

theorem rom_lost_iff : (o.rom.isSome && !(o.program? files).isSome) = true ↔
    ∃ path, o.rom = some path ∧ Unloadable files o.model path := by
  rw [program?]
  cases o.rom with
  | none => simp
  | some path => simp [loadable_eq_none_iff]

/-- With a usable boot image a run fails exactly if a program was asked for and not loaded. -/
theorem exitCode_of_boot {boot : Boot} (hb : o.boot.boot files = .ok boot)
    (hle : (Setup.mk o.model boot).bootBytes.length ≤ o.model.entry.toNat) :
    ((o.run files).exitCode = 1 ↔ ∃ path, o.rom = some path ∧ Unloadable files o.model path) ∧
    ((o.run files).exitCode = 0 ↔
      ¬ ∃ path, o.rom = some path ∧ Unloadable files o.model path) := by
  rw [← rom_lost_iff]
  exact exitCode_of_report (report_of_boot hb hle)

end Options

/-- Only a run that has a report prints something. -/
theorem exists_report_of_stdout_ne (h : (run files args).stdout ≠ "") :
    ¬ ("--help" ∈ args ∨ "-h" ∈ args) ∧ ∃ o report skipped, Options.ofArgs args = .ok o ∧
      o.report files = .ok (report, skipped) := by
  have hhelp : ¬ ("--help" ∈ args ∨ "-h" ∈ args) := by
    intro hhelp
    rw [run_of_help hhelp] at h
    exact h rfl
  refine ⟨hhelp, ?_⟩
  cases ho : Options.ofArgs args with
  | error e =>
    rw [run_of_error hhelp ho] at h
    exact absurd rfl h
  | ok o =>
    cases hreport : o.report files with
    | error e =>
      rw [run_of_ok hhelp ho, Options.run_of_report_error hreport] at h
      exact absurd rfl h
    | ok reported => exact ⟨o, reported.1, reported.2, rfl, hreport⟩

/-- A run that has a report prints it, and fails exactly if it lost its program. -/
theorem run_outcome (files : FileSystem) (args : List String) :
    if "--help" ∈ args ∨ "-h" ∈ args then
      (run files args).exitCode = 0 ∧ (run files args).stdout = ""
    else
      match Options.ofArgs args with
      | .error e => run files args = { exitCode := 1, stdout := "", stderr := e.message ++ "\n" }
      | .ok o =>
        ((chosenBoot args).Unusable files (chosenModel args) →
          (run files args).exitCode = 1 ∧ (run files args).stdout = "") ∧
        (¬ (chosenBoot args).Unusable files (chosenModel args) →
          (∃ report skipped, o.report files = .ok (report, skipped) ∧
            (run files args).stdout = report.print (decide ("--json" ∈ args))) ∧
          (run files args).stdout ≠ "" ∧
          ((run files args).exitCode = 1 ↔
            ∃ path, chosenRom args = some path ∧ Unloadable files (chosenModel args) path) ∧
          ((run files args).exitCode = 0 ↔
            ¬ ∃ path, chosenRom args = some path ∧ Unloadable files (chosenModel args) path)) ∧
        ∀ dumps queries,
          (Options.run files { o with dumps, queries }).exitCode = (run files args).exitCode := by
  split
  · rename_i hhelp
    rw [run_of_help hhelp]
    exact ⟨rfl, rfl⟩
  · rename_i hhelp
    split
    · rename_i e he
      exact run_of_error hhelp he
    · rename_i o ho
      have hr := Options.reads_of_ofArgs ho
      rw [run_of_ok hhelp ho, ← hr.boot, ← hr.model, ← hr.rom, ← hr.json]
      refine ⟨?_, ?_, fun dumps queries => o.exitCode_of_dumps_queries files dumps queries⟩
      · intro hbad
        obtain ⟨e, he⟩ := Options.report_of_unusable hbad
        rw [Options.run_of_report_error he]
        exact ⟨rfl, rfl⟩
      · intro hgood
        obtain ⟨boot, hb, hle⟩ := Options.exists_boot_of_usable hgood
        have hreport := Options.report_of_boot hb hle
        have hout := congrArg Outcome.stdout (Options.run_of_report hreport)
        exact ⟨⟨_, _, hreport, hout⟩, Options.stdout_ne_empty hreport,
          Options.exitCode_of_boot hb hle⟩

/-- A program that would fill memory makes the run fail, but is reported on. -/
theorem run_outcome_rom_fills_memory :
    let files : FileSystem := fun _ => .ok (List.replicate 3584 0)
    let args := ["--rom", "rom", "--dump", "$FFF:2", "--query", "nowhere"]
    (run files args).exitCode = 1 ∧ (run files args).stdout ≠ "" := by
  intro files args
  have ho : Options.ofArgs args = .ok
      { rom := some "rom", dumps := [⟨0xFFF, 2⟩], queries := ["nowhere"] } := rfl
  have hfont : chosenBoot args = .font := rfl
  have h := run_outcome files args
  rw [if_neg (by decide), ho, hfont] at h
  obtain ⟨-, hreport, -⟩ := h
  have husable : ¬ BootSource.font.Unusable files (chosenModel args) := by
    rintro ⟨path, hp, -⟩
    cases hp
  obtain ⟨-, hout, hone, -⟩ := hreport husable
  refine ⟨hone.2 ⟨"rom", rfl, ?_⟩, hout⟩
  intro image hi
  obtain rfl : List.replicate 3584 0 = image := Except.ok.inj hi
  rw [List.length_replicate]
  decide

end ChipFamily.CommandLine
