import LambdaCalculus.Parser
import LambdaCalculus.Term.Normal
import LambdaCalculus.Term.Print
import LambdaCalculus.Term.Rename

namespace LambdaCalculus.Analyzer

inductive Command where
  | print
  | tokens
  | kind
  | free
  | closed
  | binds (name : String)
  | canRename (old new : String)
  | rename (old new : String)
  | normalize
  | equiv (other : String)
  | valid
  deriving DecidableEq, Repr

/-- One of `expr` and `path` gives the expression. No answer depends on `verbose`, which asks for a
log. -/
structure Config where
  expr : Option String
  path : Option String
  verbose : Bool
  command : Command
  deriving DecidableEq, Repr

inductive ReadError where
  | notFound
  | permissionDenied
  | notDirectory
  | isDirectory
  | nameTooLong
  | system (description : String) (code : Nat)
  | notUtf8
  deriving DecidableEq, Repr

def ReadError.message : ReadError → String
  | notFound => "No such file or directory (os error 2)"
  | permissionDenied => "Permission denied (os error 13)"
  | notDirectory => "Not a directory (os error 20)"
  | isDirectory => "Is a directory (os error 21)"
  | nameTooLong => "File name too long (os error 36)"
  | system description code => s!"{description} (os error {code})"
  | notUtf8 => "stream did not contain valid UTF-8"

def ReadError.ofCode (description : String) : Nat → ReadError
  | 2 => notFound
  | 13 => permissionDenied
  | 20 => notDirectory
  | 21 => isDirectory
  | 36 => nameTooLong
  | code => system description code

abbrev Files := String → Except ReadError ByteArray

inductive ConfigError where
  | twoSources | noSource
  deriving DecidableEq, Repr

def ConfigError.message : ConfigError → String
  | twoSources => "Only one of --expr and --src-filepath may be given"
  | noSource => "One of --expr and --src-filepath is required"

inductive RunError where
  | config (error : ConfigError)
  | inputFile (error : ReadError)
  | lex (error : LexError)
  | parse (error : ParseError)
  | rename (error : Term.RenameError)
  deriving DecidableEq, Repr

def RunError.message : RunError → String
  | config e => "Analyzer configuration error: " ++ e.message
  | inputFile e => "Input file error: " ++ e.message
  | lex e => "Lex error: " ++ e.message
  | parse e => "Parse error: " ++ e.message
  | rename e => "Rename error: " ++ e.message

def readFile (files : Files) (path : String) : Except ReadError String := do
  match String.fromUTF8? (← files path) with
  | some text => return text
  | none => throw .notUtf8

def source (files : Files) (config : Config) : Except RunError String :=
  match config.expr, config.path with
  | some text, none => .ok text
  | none, some path => (readFile files path).mapError .inputFile
  | some _, some _ => .error (.config .twoSources)
  | none, none => .error (.config .noSource)

def tokenLine (t : Token) : String :=
  let description := t.kind.description
  let quoted := Text.Quoted.quote '"' t.text.toList
  s!"{t.position} {description} {quoted}"

def listTokens (ts : List Token) : String := "\n".intercalate (ts.map tokenLine)

/-- The order of code points, which is the order of the bytes of UTF-8. -/
def sortNames (names : List String) : List String := names.mergeSort (· ≤ ·)

def listNames (names : List String) : String := " ".intercalate (sortNames names)

def answer (b : Bool) : String := if b then "true" else "false"

def parsed (text : String) : Except RunError Term := (parse text).mapError .parse

def execute (text : String) : Command → Except RunError String
  | .print => return (← parsed text).print
  | .tokens => return listTokens (← (tokenize text).mapError .lex)
  | .kind => return (← parsed text).kindName
  | .free => return listNames (← parsed text).freeVariables
  | .closed => return answer (← parsed text).isClosed
  | .binds name => return answer ((← parsed text).binds name)
  | .canRename old new => return answer ((← parsed text).canRename old new)
  | .rename old new => do
    let e ← parsed text
    return (← (e.rename old new).mapError .rename).print
  | .normalize => return (← parsed text).normalize.print
  | .equiv other => do
    let f ← parsed other
    let e ← parsed text
    return answer (decide (e.Equivalent f))
  | .valid => return answer (isValid text)

/-- The source is read before the command looks at it, or at any text of its own. -/
def run (files : Files) (config : Config) : Except RunError String := do
  execute (← source files config) config.command

end LambdaCalculus.Analyzer
