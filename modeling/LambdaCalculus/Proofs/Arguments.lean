import LambdaCalculus.CommandLine
import LambdaCalculus.Proofs.Commands

namespace LambdaCalculus.CommandLine

open Analyzer

variable {o : Options} {form : Form} {args : List String} {config : Config}

/-- The declarations leave a configuration no choice but to have one source. -/
theorem Options.isSome_ne (hconflicts : o.KeepsConflicts) (hrequired : o.KeepsRequired) :
    o.expr.isSome ≠ o.path.isSome := by
  -- `expr` is the one option that is declared to depend on another, in both ways on `path`.
  have hdeclared : ⟨.expr, 'e', "expr", true, [.path], [.path]⟩ ∈ declarations :=
    List.mem_cons_self
  intro hsame
  cases hexpr : o.expr.isSome with
  | true =>
    have hpath : o.path.isSome = false :=
      hconflicts _ hdeclared hexpr .path List.mem_cons_self
    rw [hexpr, hpath] at hsame
    cases hsame
  | false =>
    obtain ⟨other, hother, hhas⟩ := hrequired _ hdeclared (List.cons_ne_nil _ _) hexpr
    obtain rfl := List.mem_singleton.1 hother
    have hpath : o.path.isSome = true := hhas
    rw [hexpr, hpath] at hsame
    cases hsame

theorem run_ne_config_error (files : Files) (h : config.expr.isSome ≠ config.path.isSome)
    (e : ConfigError) : Analyzer.run files config ≠ .error (.config e) := by
  rw [ne_eq, run_eq_config_error_iff, source_eq_config_error_iff]
  rintro (⟨_, he, hp⟩ | ⟨_, he, hp⟩)
  · exact h (he.trans hp.symm)
  · exact h (by rw [he, hp])

theorem finish_eq_config (h : finish o form = .config config) :
    (given config).KeepsConflicts ∧ (given config).KeepsRequired := by
  cases form with
  | plain command =>
    rw [finish] at h
    split at h
    · rename_i hkeeps
      cases h
      exact hkeeps
    · cases h
  | one command | two command => cases h

theorem readValues_eq_config (h : readValues o form args = .config config) :
    (given config).KeepsConflicts ∧ (given config).KeepsRequired := by
  induction args generalizing form with
  | nil => exact finish_eq_config h
  | cons arg args ih =>
    rw [readValues] at h
    split at h
    · split at h
      · exact finish_eq_config h
      · cases h
    · split at h
      · split at h <;> cases h
      · split at h
        · exact ih h
        · cases h

theorem readCommand_eq_config {name : String} (h : readCommand o name args = .config config) :
    (given config).KeepsConflicts ∧ (given config).KeepsRequired := by
  rw [readCommand] at h
  split at h
  · unfold readHelp at h
    split at h
    · cases h
    · split at h <;> cases h
    · split at h <;> cases h
    · cases h
  · split at h
    · exact readValues_eq_config h
    · cases h

/-- However the options are spelled and ordered, the command ends the reading, and the declarations
are checked there. -/
theorem readFrom_eq_config {waiting : Option OptionName}
    (h : readFrom o waiting args = .config config) :
    (given config).KeepsConflicts ∧ (given config).KeepsRequired := by
  induction args generalizing o waiting with
  | nil => cases h
  | cons arg args ih =>
    cases waiting with
    | some name =>
      rw [readFrom] at h
      split at h
      · cases h
      · split at h
        · exact ih h
        · cases h
    | none =>
      rw [readFrom] at h
      split at h
      · exact ih h
      · exact ih h
      · exact readCommand_eq_config h
      · cases h
      · cases h

theorem read_enforcesConflicts : Reader.EnforcesConflicts read :=
  fun _ _ h => (readFrom_eq_config h).1

theorem read_enforcesRequired : Reader.EnforcesRequired read :=
  fun _ _ h => (readFrom_eq_config h).2

variable {reader : Reader}

theorem runWith_of_ok {files : Files} {output : String} (h : reader args = .config config)
    (hr : Analyzer.run files config = .ok output) :
    runWith reader files args = .success (output ++ "\n") := by
  simp only [runWith, h, hr]

theorem runWith_of_error {files : Files} {e : RunError} (h : reader args = .config config)
    (hr : Analyzer.run files config = .error e) : runWith reader files args = .failure e := by
  simp only [runWith, h, hr]

theorem exists_error_of_code {files : Files} (h : (runWith reader files args).code = 1) :
    ∃ config e, reader args = .config config ∧ Analyzer.run files config = .error e := by
  cases hread : reader args with
  | refused | shown text =>
    rw [runWith, hread] at h
    cases h
  | config config =>
    cases hrun : Analyzer.run files config with
    | ok output =>
      rw [runWith_of_ok hread hrun] at h
      cases h
    | error e => exact ⟨config, e, rfl, hrun⟩

/-- Whatever reads the arguments, if it enforces what is declared of the options, then a
configuration has exactly one source. So a run fails for the file or the text alone, and else prints
the output on a line. -/
theorem runWith_of_enforces (reader : Reader) (hconflicts : reader.EnforcesConflicts)
    (hrequired : reader.EnforcesRequired) (files : Files) (args : List String) :
    (∀ config, reader args = .config config →
      config.expr.isSome ≠ config.path.isSome ∧
        (∀ e, Analyzer.run files config ≠ .error (.config e)) ∧
        ((runWith reader files args).code = 0 ↔
          ∃ output, Analyzer.run files config = .ok output) ∧
        ∀ printed, runWith reader files args = .success printed ↔
          ∃ output, Analyzer.run files config = .ok output ∧ printed = output ++ "\n") ∧
      ((runWith reader files args).code = 1 → ∃ config e, reader args = .config config ∧
        Analyzer.run files config = .error e ∧ runWith reader files args = .failure e ∧
          ((∃ d, e = .inputFile d) ∨ (∃ d, e = .lex d) ∨ (∃ d, e = .parse d) ∨
            ∃ d, e = .rename d)) := by
  have hsources : ∀ config, reader args = .config config →
      config.expr.isSome ≠ config.path.isSome := fun config h =>
    Options.isSome_ne (hconflicts args config h) (hrequired args config h)
  constructor
  · intro config h
    refine ⟨hsources config h, run_ne_config_error files (hsources config h), ?_⟩
    cases hr : Analyzer.run files config with
    | ok output =>
      rw [runWith_of_ok h hr]
      simp [Exit.code, eq_comm]
    | error e =>
      rw [runWith_of_error h hr]
      simp [Exit.code]
  · intro hcode
    obtain ⟨config, e, h, hr⟩ := exists_error_of_code hcode
    refine ⟨config, e, h, hr, runWith_of_error h hr, ?_⟩
    cases e with
    | config d => exact absurd hr (run_ne_config_error files (hsources config h) d)
    | inputFile d => exact .inl ⟨d, rfl⟩
    | lex d => exact .inr (.inl ⟨d, rfl⟩)
    | parse d => exact .inr (.inr (.inl ⟨d, rfl⟩))
    | rename d => exact .inr (.inr (.inr ⟨d, rfl⟩))

/-- Short options that share a dash, a value attached to the last of them, and values that look like
options behind a double dash. -/
theorem runWith_of_enforces_attached :
    let files : Files := fun _ => .ok "λx.y x".toUTF8
    let args := ["-vs=term", "rename", "--", "x", "-y"]
    let config : Config := ⟨none, some "term", true, .rename "x" "-y"⟩
    let failing := ["-e_", "print"]
    Reader.EnforcesConflicts read ∧ Reader.EnforcesRequired read ∧
      read args = .config config ∧ config.expr.isSome ≠ config.path.isSome ∧
      (∀ e, Analyzer.run files config ≠ .error (.config e)) ∧
      ((runWith read files args).code = 0 ↔ ∃ output, Analyzer.run files config = .ok output) ∧
      (∀ printed, runWith read files args = .success printed ↔
        ∃ output, Analyzer.run files config = .ok output ∧ printed = output ++ "\n") ∧
      (runWith read files failing).code = 1 ∧
      ∃ config e, read failing = .config config ∧ Analyzer.run files config = .error e ∧
        runWith read files failing = .failure e ∧
          ((∃ d, e = .inputFile d) ∨ (∃ d, e = .lex d) ∨ (∃ d, e = .parse d) ∨
            ∃ d, e = .rename d) := by
  intro files args config failing
  have hconflicts := read_enforcesConflicts
  have hrequired := read_enforcesRequired
  have hread : read args = .config config := by decide +kernel
  have hcode : (runWith read files failing).code = 1 := by decide +kernel
  obtain ⟨hne, hconfig, hzero, hprinted⟩ :=
    (runWith_of_enforces read hconflicts hrequired files args).1 config hread
  have hone := (runWith_of_enforces read hconflicts hrequired files failing).2 hcode
  exact ⟨hconflicts, hrequired, hread, hne, hconfig, hzero, hprinted, hcode, hone⟩

end LambdaCalculus.CommandLine
