import LambdaCalculus.Analyzer
import LambdaCalculus.Proofs.Acceptance
import LambdaCalculus.Proofs.RenamingPositions

namespace LambdaCalculus

namespace Analyzer

variable {files : Files} {config : Config} {command : Command} {look : Term → String}
  {text other old new : String} {e : Term}

def Command.inspect? : Command → Option (Term → String)
  | print => some Term.print
  | kind => some Term.kindName
  | free => some fun e => listNames e.freeVariables
  | closed => some fun e => answer e.isClosed
  | binds name => some fun e => answer (e.binds name)
  | canRename old new => some fun e => answer (e.canRename old new)
  | normalize => some fun e => e.normalize.print
  | tokens | rename _ _ | equiv _ | valid => none

/-- The configuration names one source, which is this text or a file with its bytes. -/
def Config.Gives (files : Files) (config : Config) (text : String) : Prop :=
  config.expr = some text ∧ config.path = none ∨
    config.expr = none ∧ ∃ path, config.path = some path ∧ files path = .ok text.toUTF8

structure Agreement (text : String) (answers : Command → Except RunError String) : Prop where
  valid : answers .valid = .ok (answer (isValid text))
  inspect : ∀ command look, command.inspect? = some look →
    ((∃ output, answers command = .ok output) ↔ answers .valid = .ok "true")
  rename : ∀ old new, (∃ output, answers (.rename old new) = .ok output) ↔
    answers .valid = .ok "true" ∧ answers (.canRename old new) = .ok "true"
  equiv : ∀ other f, parse other = .ok f →
    ((∃ output, answers (.equiv other) = .ok output) ↔ answers .valid = .ok "true")
  tokens : answers .valid = .ok "true" → ∃ output, answers .tokens = .ok output
  /-- One error for all commands that need the tree of the text. -/
  invalid : answers .valid ≠ .ok "true" → ∃ e, parse text = .error e ∧
    (∀ command look, command.inspect? = some look → answers command = .error (.parse e)) ∧
    (∀ old new, answers (.rename old new) = .error (.parse e)) ∧
    ∀ other f, parse other = .ok f → answers (.equiv other) = .error (.parse e)
  invalid_other : ∀ other e, parse other = .error e → answers (.equiv other) = .error (.parse e)
  captured : ∀ old new, answers .valid = .ok "true" → answers (.canRename old new) ≠ .ok "true" →
    answers (.rename old new) = .error (.rename (.capture old new))
  unrecognized : ∀ e, answers .tokens = .error e → ∃ d, e = .lex d

theorem fromUTF8?_eq_some_iff {bytes : ByteArray} :
    String.fromUTF8? bytes = some text ↔ bytes = text.toUTF8 := by
  unfold String.fromUTF8?
  constructor
  · intro h
    split at h
    · cases h
      rfl
    · cases h
  · intro h
    subst h
    exact dif_pos text.isValidUTF8

theorem fromUTF8?_eq_none_iff {bytes : ByteArray} :
    String.fromUTF8? bytes = none ↔ ∀ text : String, bytes ≠ text.toUTF8 := by
  simp only [Option.eq_none_iff_forall_ne_some, ne_eq, fromUTF8?_eq_some_iff]

theorem readFile_eq_ok_iff {path : String} :
    readFile files path = .ok text ↔ files path = .ok text.toUTF8 := by
  unfold readFile
  cases files path with
  | error e => simp [bind, Except.bind]
  | ok bytes =>
    rw [Except.ok.injEq, ← fromUTF8?_eq_some_iff]
    cases h : String.fromUTF8? bytes <;>
      simp [bind, Except.bind, h, pure, Except.pure, throw, throwThe, MonadExceptOf.throw]

theorem readFile_eq_error_iff {path : String} {e : ReadError} :
    readFile files path = .error e ↔ files path = .error e ∨
      e = .notUtf8 ∧ ∃ bytes, files path = .ok bytes ∧ ∀ text : String, bytes ≠ text.toUTF8 := by
  unfold readFile
  cases files path with
  | error d => simp [bind, Except.bind]
  | ok bytes =>
    simp only [reduceCtorEq, false_or, Except.ok.injEq, exists_eq_left', ← fromUTF8?_eq_none_iff]
    cases h : String.fromUTF8? bytes <;>
      simp [bind, Except.bind, h, pure, Except.pure, throw, throwThe, MonadExceptOf.throw, eq_comm]

theorem source_eq_ok_iff : source files config = .ok text ↔ config.Gives files text := by
  obtain ⟨_ | given, _ | path, verbose, command⟩ := config <;>
    simp [source, Config.Gives, readFile_eq_ok_iff]

theorem source_eq_config_error_iff {e : ConfigError} :
    source files config = .error (.config e) ↔
      e = .twoSources ∧ config.expr.isSome ∧ config.path.isSome ∨
        e = .noSource ∧ config.expr = none ∧ config.path = none := by
  obtain ⟨_ | given, _ | path, verbose, command⟩ := config <;>
    simp [source, mapError_eq_error_iff, eq_comm]

theorem source_eq_inputFile_error_iff {e : ReadError} :
    source files config = .error (.inputFile e) ↔
      config.expr = none ∧ ∃ path, config.path = some path ∧ readFile files path = .error e := by
  obtain ⟨_ | given, _ | path, verbose, command⟩ := config <;>
    simp [source, mapError_eq_error_iff]

theorem source_ne_lex_error (e : LexError) : source files config ≠ .error (.lex e) := by
  obtain ⟨_ | given, _ | path, verbose, command⟩ := config <;>
    simp [source, mapError_eq_error_iff]

theorem run_of_source (h : source files config = .ok text) (command : Command) :
    run files { config with command := command } = execute text command := by
  change source files config >>= _ = _
  rw [h]
  rfl

theorem parsed_of_parse (h : parse text = .ok e) : parsed text = .ok e := by
  rw [parsed, h]
  rfl

theorem parsed_of_error {d : ParseError} (h : parse text = .error d) :
    parsed text = .error (.parse d) := by
  rw [parsed, h]
  rfl

theorem parsed_eq_error {d : RunError} (h : parsed text = .error d) : ∃ e, d = .parse e := by
  obtain ⟨e, _, rfl⟩ := mapError_eq_error_iff.1 h
  exact ⟨e, rfl⟩

@[simp]
theorem answer_eq_true {b : Bool} : answer b = "true" ↔ b = true := by
  cases b <;> decide

theorem execute_valid_eq (text : String) : execute text .valid = .ok (answer (isValid text)) := rfl

theorem execute_inspect_eq (h : command.inspect? = some look) :
    execute text command = (parsed text).map look := by
  cases command <;> cases h <;> rw [execute] <;> cases parsed text <;> rfl

theorem execute_tokens_eq (text : String) :
    execute text .tokens = ((tokenize text).mapError .lex).map listTokens := by
  rw [execute]
  cases tokenize text <;> rfl

theorem execute_rename_eq (text old new : String) : execute text (.rename old new) =
    parsed text >>= fun e => ((e.rename old new).mapError .rename).map Term.print := by
  rw [execute]
  cases parsed text with
  | error d => rfl
  | ok e => cases e.rename old new <;> rfl

theorem execute_equiv_eq (text other : String) : execute text (.equiv other) =
    parsed other >>= fun f => (parsed text).map fun e => answer (decide (e.Equivalent f)) := by
  rw [execute]
  cases parsed other <;> cases parsed text <;> rfl

theorem execute_eq_error {d : RunError} (h : execute text command = .error d) :
    (∃ e, d = .lex e ∧ command = .tokens) ∨ (∃ e, d = .parse e) ∨ ∃ e, d = .rename e := by
  cases hlook : command.inspect? with
  | some look =>
    rw [execute_inspect_eq hlook, map_eq_error_iff] at h
    exact .inr (.inl (parsed_eq_error h))
  | none =>
    cases command with
    | tokens =>
      rw [execute_tokens_eq, map_eq_error_iff, mapError_eq_error_iff] at h
      obtain ⟨e, _, rfl⟩ := h
      exact .inl ⟨e, rfl, rfl⟩
    | rename old new =>
      rw [execute_rename_eq, bind_eq_error_iff] at h
      obtain h | ⟨f, _, h⟩ := h
      · exact .inr (.inl (parsed_eq_error h))
      · rw [map_eq_error_iff, mapError_eq_error_iff] at h
        obtain ⟨e, _, rfl⟩ := h
        exact .inr (.inr ⟨e, rfl⟩)
    | equiv other =>
      rw [execute_equiv_eq, bind_eq_error_iff] at h
      obtain h | ⟨f, _, h⟩ := h
      · exact .inr (.inl (parsed_eq_error h))
      · rw [map_eq_error_iff] at h
        exact .inr (.inl (parsed_eq_error h))
    | valid => cases h
    | print | kind | free | closed | binds | canRename | normalize => cases hlook

theorem run_eq_error_iff_source {d : RunError}
    (h : ∀ text command, execute text command ≠ .error d) :
    run files config = .error d ↔ source files config = .error d := by
  rw [run, bind_eq_error_iff]
  constructor
  · rintro (hs | ⟨text, _, he⟩)
    · exact hs
    · exact absurd he (h text config.command)
  · exact .inl

theorem run_eq_config_error_iff {e : ConfigError} :
    run files config = .error (.config e) ↔ source files config = .error (.config e) := by
  apply run_eq_error_iff_source
  intro text command h
  obtain ⟨_, h, _⟩ | ⟨_, h⟩ | ⟨_, h⟩ := execute_eq_error h <;> cases h

theorem run_eq_inputFile_error_iff {e : ReadError} :
    run files config = .error (.inputFile e) ↔ source files config = .error (.inputFile e) := by
  apply run_eq_error_iff_source
  intro text command h
  obtain ⟨_, h, _⟩ | ⟨_, h⟩ | ⟨_, h⟩ := execute_eq_error h <;> cases h

theorem command_of_lex_error {e : LexError} (h : run files config = .error (.lex e)) :
    config.command = .tokens := by
  rw [run, bind_eq_error_iff] at h
  obtain h | ⟨text, _, h⟩ := h
  · exact absurd h (source_ne_lex_error e)
  · obtain ⟨_, _, hc⟩ | ⟨_, h⟩ | ⟨_, h⟩ := execute_eq_error h
    · exact hc
    · cases h
    · cases h

theorem run_of_file {path : String} (h : files path = .ok text.toUTF8) :
    run files { config with expr := none, path := some path } =
      run files { config with expr := some text, path := none } := by
  have hfile : source files { config with expr := none, path := some path } = .ok text :=
    source_eq_ok_iff.2 (.inr ⟨rfl, path, rfl, h⟩)
  rw [run, hfile]
  rfl

theorem parsed_eq_ok : parsed text = .ok e ↔ parse text = .ok e := mapError_eq_ok_iff

theorem execute_valid_eq_true_iff :
    execute text .valid = .ok "true" ↔ ∃ e, parse text = .ok e := by
  rw [execute_valid_eq, Except.ok.injEq, answer_eq_true, isValid_iff]

theorem exists_parse_error (h : execute text .valid ≠ .ok "true") :
    ∃ d, parse text = .error d := by
  rw [ne_eq, execute_valid_eq_true_iff] at h
  cases hp : parse text with
  | error d => exact ⟨d, rfl⟩
  | ok e => exact absurd ⟨e, hp⟩ h

theorem exists_execute_inspect_iff (h : command.inspect? = some look) :
    (∃ output, execute text command = .ok output) ↔ execute text .valid = .ok "true" := by
  rw [execute_valid_eq_true_iff, execute_inspect_eq h, exists_map_eq_ok_iff]
  simp only [parsed_eq_ok]

theorem execute_equiv_of_parse {f : Term} (h : parse other = .ok f) :
    execute text (.equiv other) =
      (parsed text).map fun e => answer (decide (e.Equivalent f)) := by
  rw [execute_equiv_eq, parsed_of_parse h]
  rfl

theorem exists_execute_equiv_iff {f : Term} (h : parse other = .ok f) :
    (∃ output, execute text (.equiv other) = .ok output) ↔ execute text .valid = .ok "true" := by
  rw [execute_valid_eq_true_iff, execute_equiv_of_parse h, exists_map_eq_ok_iff]
  simp only [parsed_eq_ok]

theorem execute_canRename_eq_true_iff :
    execute text (.canRename old new) = .ok "true" ↔
      ∃ e, parse text = .ok e ∧ e.canRename old new = true := by
  rw [execute_inspect_eq rfl, map_eq_ok_iff]
  simp only [parsed_eq_ok, answer_eq_true]

theorem exists_execute_rename_iff :
    (∃ output, execute text (.rename old new) = .ok output) ↔
      execute text .valid = .ok "true" ∧ execute text (.canRename old new) = .ok "true" := by
  rw [execute_valid_eq_true_iff, execute_canRename_eq_true_iff]
  constructor
  · rintro ⟨output, h⟩
    rw [execute_rename_eq] at h
    obtain ⟨e, he, h⟩ := bind_eq_ok_iff.1 h
    obtain ⟨r, hr, _⟩ := map_eq_ok_iff.1 h
    have hc := Term.exists_rename_iff_canRename.1 ⟨r, mapError_eq_ok_iff.1 hr⟩
    exact ⟨⟨e, parsed_eq_ok.1 he⟩, e, parsed_eq_ok.1 he, hc⟩
  · rintro ⟨_, e, he, hc⟩
    obtain ⟨r, hr⟩ := Term.exists_rename_iff_canRename.2 hc
    refine ⟨r.print, ?_⟩
    rw [execute_rename_eq, parsed_of_parse he]
    exact map_eq_ok_iff.2 ⟨r, mapError_eq_ok_iff.2 hr, rfl⟩

theorem agreement_execute (text : String) : Agreement text (execute text) where
  valid := rfl
  inspect _ _ h := exists_execute_inspect_iff h
  rename _ _ := exists_execute_rename_iff
  equiv _ _ h := exists_execute_equiv_iff h
  tokens h := by
    obtain ⟨e, he⟩ := execute_valid_eq_true_iff.1 h
    obtain ⟨ts, hts, _⟩ := parse_eq_ok_iff_tokenize.1 he
    exact ⟨listTokens ts, by rw [execute_tokens_eq, hts]; rfl⟩
  invalid h := by
    obtain ⟨d, hd⟩ := exists_parse_error h
    refine ⟨d, hd, ?_, ?_, ?_⟩
    · intro command look hlook
      rw [execute_inspect_eq hlook, parsed_of_error hd]
      rfl
    · intro old new
      rw [execute_rename_eq, parsed_of_error hd]
      rfl
    · intro other f hf
      rw [execute_equiv_of_parse hf, parsed_of_error hd]
      rfl
  invalid_other other d hd := by
    rw [execute_equiv_eq, parsed_of_error hd]
    rfl
  captured old new h hc := by
    obtain ⟨e, he⟩ := execute_valid_eq_true_iff.1 h
    have hno : e.canRename old new ≠ true := fun hcan =>
      hc (execute_canRename_eq_true_iff.2 ⟨e, he, hcan⟩)
    have hr : e.rename old new = .error (.capture old new) := if_neg hno
    rw [execute_rename_eq, parsed_of_parse he]
    exact map_eq_error_iff.2 (mapError_eq_error_iff.2 ⟨_, hr, rfl⟩)
  unrecognized d h := by
    rw [execute_tokens_eq, map_eq_error_iff, mapError_eq_error_iff] at h
    obtain ⟨e, _, rfl⟩ := h
    exact ⟨e, rfl⟩

/-- A run ends in an error of its source or in what its command says about the text, wherever the
text comes from, and what the commands say about one text fits together. -/
theorem run_agreement (files : Files) (config : Config) :
    (∀ e, run files config = .error (.config e) ↔
      e = .twoSources ∧ config.expr.isSome ∧ config.path.isSome ∨
        e = .noSource ∧ config.expr = none ∧ config.path = none) ∧
      (∀ e, run files config = .error (.inputFile e) ↔
        config.expr = none ∧ ∃ path, config.path = some path ∧ (files path = .error e ∨
          e = .notUtf8 ∧ ∃ bytes, files path = .ok bytes ∧
            ∀ text : String, bytes ≠ text.toUTF8)) ∧
      (∀ path text, files path = .ok text.toUTF8 →
        run files { config with expr := none, path := some path } =
          run files { config with expr := some text, path := none }) ∧
      (∀ e, run files config = .error (.lex e) → config.command = .tokens) ∧
      ∀ text, config.Gives files text →
        Agreement text fun command => run files { config with command := command } := by
  refine ⟨fun e => ?_, fun e => ?_, fun path text => run_of_file,
    fun e => command_of_lex_error, fun text h => ?_⟩
  · rw [run_eq_config_error_iff, source_eq_config_error_iff]
  · rw [run_eq_inputFile_error_iff, source_eq_inputFile_error_iff]
    simp only [readFile_eq_error_iff]
  · have hexecute : (fun command => run files { config with command := command }) =
        execute text := by
      funext command
      exact run_of_source (source_eq_ok_iff.2 h) command
    rw [hexecute]
    exact agreement_execute text

theorem run_agreement_of_file :
    let files : Files := fun path =>
      if path = "term" then .ok "x _".toUTF8 else .error .notFound
    let config : Config := ⟨none, some "term", true, .tokens⟩
    files "term" = .ok "x _".toUTF8 ∧
      run files { config with expr := none, path := some "term" } =
        run files { config with expr := some "x _", path := none } ∧
      run files config = .error (.lex (.unrecognizedCharacter '_' 2)) ∧
      config.command = .tokens ∧ config.Gives files "x _" ∧
      Agreement "x _" fun command => run files { config with command := command } := by
  intro files config
  have hfile : files "term" = .ok "x _".toUTF8 := rfl
  have hgives : config.Gives files "x _" := .inr ⟨rfl, "term", rfl, hfile⟩
  have hlex : run files config = .error (.lex (.unrecognizedCharacter '_' 2)) := by
    decide +kernel
  obtain ⟨_, _, hsame, hcommand, hagree⟩ := run_agreement files config
  exact ⟨hfile, hsame "term" "x _" hfile, hlex, hcommand _ hlex, hgives, hagree "x _" hgives⟩

end Analyzer

end LambdaCalculus
