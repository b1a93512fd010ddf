import LambdaCalculus.Analyzer

namespace LambdaCalculus.CommandLine

open Analyzer

inductive OptionName where
  | expr | path | verbose
  deriving DecidableEq, Repr

structure Declaration where
  name : OptionName
  short : Char
  long : String
  takesValue : Bool
  conflictsWith : List OptionName
  requiredUnless : List OptionName
  deriving DecidableEq, Repr

def declarations : List Declaration := [
  ⟨.expr, 'e', "expr", true, [.path], [.path]⟩,
  ⟨.path, 's', "src-filepath", true, [], []⟩,
  ⟨.verbose, 'v', "verbose", false, [], []⟩]

structure Options where
  expr : Option String
  path : Option String
  verbose : Bool
  deriving DecidableEq, Repr

namespace Options

def none : Options := ⟨.none, .none, false⟩

def has (o : Options) : OptionName → Bool
  | .expr => o.expr.isSome
  | .path => o.path.isSome
  | .verbose => o.verbose

def KeepsConflicts (o : Options) : Prop :=
  ∀ d ∈ declarations, o.has d.name = true → ∀ other ∈ d.conflictsWith, o.has other = false

/-- An option that is declared as required unless others are there is left out only where one of
those is there. -/
def KeepsRequired (o : Options) : Prop :=
  ∀ d ∈ declarations, d.requiredUnless ≠ [] → o.has d.name = false →
    ∃ other ∈ d.requiredUnless, o.has other = true

instance (o : Options) : Decidable o.KeepsConflicts :=
  inferInstanceAs (Decidable (∀ d ∈ declarations, _))

instance (o : Options) : Decidable o.KeepsRequired :=
  inferInstanceAs (Decidable (∀ d ∈ declarations, _))

end Options

def given (config : Config) : Options := ⟨config.expr, config.path, config.verbose⟩

/-- What becomes of the arguments: they are refused, answered at once with a text about the program
itself, or turned into a configuration. -/
inductive Reading where
  | refused
  | shown (text : String)
  | config (config : Config)
  deriving DecidableEq, Repr

/-- The program does not read its arguments itself. It declares its options and takes what the
reader makes of them. -/
abbrev Reader := List String → Reading

namespace Reader

def EnforcesConflicts (reader : Reader) : Prop :=
  ∀ args config, reader args = .config config → (given config).KeepsConflicts

def EnforcesRequired (reader : Reader) : Prop :=
  ∀ args config, reader args = .config config → (given config).KeepsRequired

end Reader

inductive Exit where
  | success (output : String)
  | failure (error : RunError)
  | usage
  deriving DecidableEq, Repr

def Exit.code : Exit → Nat
  | success _ => 0
  | failure _ => 1
  | usage => 2

def runWith (reader : Reader) (files : Files) (args : List String) : Exit :=
  match reader args with
  | .refused => .usage
  | .shown text => .success text
  | .config config =>
    match Analyzer.run files config with
    | .ok output => .success (output ++ "\n")
    | .error e => .failure e

def versionText : String := "rust-lambda-analysis 0.1.0\n"

def helpText : String := "Usage: lambda [-v] (-e EXPR | -s FILE) COMMAND [NAME...]\n"

/-- An option is given at most once. For one that takes no value, `value` does not matter. -/
def Options.give? (o : Options) (value : String) (name : OptionName) : Option Options :=
  if o.has name then .none
  else match name with
    | .expr => some { o with expr := some value }
    | .path => some { o with path := some value }
    | .verbose => some { o with verbose := true }

inductive Step where
  | given (options : Options)
  | awaiting (options : Options) (name : OptionName)
  | word
  | shown (text : String)
  | refused
  deriving DecidableEq, Repr

def Step.ofGiven? : Option Options → Step
  | some o => .given o
  | none => .refused

def isOption (arg : List Char) : Bool :=
  match arg with
  | '-' :: _ :: _ => true
  | _ => false

def attachedValue : List Char → String
  | '=' :: value => String.ofList value
  | value => String.ofList value

/-- Several short options may share a dash. One that takes a value takes all that follows it, after
an equals sign if there is one. -/
def short (o : Options) : List Char → Step
  | [] => .given o
  | 'V' :: _ => .shown versionText
  | 'h' :: _ => .shown helpText
  | c :: rest =>
    match declarations.find? (·.short = c) with
    | none => .refused
    | some d =>
      if d.takesValue then
        if rest = [] then .awaiting o d.name
        else .ofGiven? (o.give? (attachedValue rest) d.name)
      else
        match o.give? "" d.name with
        | some o => short o rest
        | none => .refused

def long (o : Options) (arg : List Char) : Step :=
  let name := String.ofList (arg.takeWhile (· != '='))
  match declarations.find? (·.long = name), arg.dropWhile (· != '=') with
  | some d, [] => if d.takesValue then .awaiting o d.name else .ofGiven? (o.give? "" d.name)
  | some d, _ :: value =>
    if d.takesValue then .ofGiven? (o.give? (String.ofList value) d.name) else .refused
  | none, [] =>
    if name = "version" then .shown versionText
    else if name = "help" then .shown helpText
    else .refused
  | none, _ :: _ => .refused

def step (o : Options) : List Char → Step
  | '-' :: '-' :: arg => long o arg
  | '-' :: c :: rest => short o (c :: rest)
  | _ => .word

inductive Form where
  | plain (command : Command)
  | one (command : String → Command)
  | two (command : String → String → Command)

def Form.apply? : Form → String → Option Form
  | plain _, _ => none
  | one command, value => some (plain (command value))
  | two command, value => some (one (command value))

def form? : String → Option Form
  | "print" => some (.plain .print)
  | "tokens" => some (.plain .tokens)
  | "kind" => some (.plain .kind)
  | "free" => some (.plain .free)
  | "closed" => some (.plain .closed)
  | "binds" => some (.one .binds)
  | "can-rename" => some (.two .canRename)
  | "rename" => some (.two .rename)
  | "normalize" => some (.plain .normalize)
  | "equiv" => some (.one .equiv)
  | "valid" => some (.plain .valid)
  | _ => none

def finish (o : Options) : Form → Reading
  | .plain command =>
    if o.KeepsConflicts ∧ o.KeepsRequired then .config ⟨o.expr, o.path, o.verbose, command⟩
    else .refused
  | .one _ | .two _ => .refused

def asksForHelp : List Char → Bool
  | '-' :: 'h' :: _ => true
  | arg => String.ofList arg == "--help"

/-- Reads the values behind the command: all that follows a double dash, and nothing else that looks
like an option. -/
def readValues (o : Options) (form : Form) : List String → Reading
  | [] => finish o form
  | arg :: args =>
    if arg = "--" then
      match args.foldlM Form.apply? form with
      | some form => finish o form
      | none => .refused
    else if isOption arg.toList then
      if asksForHelp arg.toList then .shown helpText else .refused
    else
      match form.apply? arg with
      | some form => readValues o form args
      | none => .refused

def readHelp : List String → Reading
  | [] => .shown helpText
  | [name] | ["help", name] =>
    if name = "help" || (form? name).isSome then .shown helpText else .refused
  | _ => .refused

def readCommand (o : Options) (name : String) (args : List String) : Reading :=
  if name = "help" then readHelp args
  else
    match form? name with
    | some form => readValues o form args
    | none => .refused

/-- Reads the arguments from left to right; `waiting` is an option whose value comes next. -/
def readFrom (o : Options) (waiting : Option OptionName) : List String → Reading
  | [] => .refused
  | arg :: args =>
    match waiting with
    | some name =>
      if isOption arg.toList then .refused
      else
        match o.give? arg name with
        | some o => readFrom o none args
        | none => .refused
    | none =>
      match step o arg.toList with
      | .given o => readFrom o none args
      | .awaiting o name => readFrom o (some name) args
      | .word => readCommand o arg args
      | .shown text => .shown text
      | .refused => .refused

/-- The reader that the program is run with. -/
def read : Reader := readFrom .none none

def run (files : Files) (args : List String) : Exit := runWith read files args

end LambdaCalculus.CommandLine
