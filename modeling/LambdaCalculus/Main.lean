import LambdaCalculus.CommandLine

namespace LambdaCalculus.Main

open Analyzer CommandLine

/-- System errors come with the negated code where the event loop reports them. -/
def readError : IO.Error → ReadError
  | .noFileOrDirectory _ code details
  | .interrupted _ code details
  | .otherError code details
  | .resourceBusy code details
  | .resourceVanished code details
  | .unsupportedOperation code details
  | .hardwareFault code details
  | .unsatisfiedConstraints code details
  | .illegalOperation code details
  | .protocolError code details
  | .timeExpired code details
  | .alreadyExists _ code details
  | .invalidArgument _ code details
  | .permissionDenied _ code details
  | .resourceExhausted _ code details
  | .inappropriateType _ code details
  | .noSuchThing _ code details =>
    .ofCode details (if code.toNat < 0x80000000 then code.toNat else 0x100000000 - code.toNat)
  | .unexpectedEof => .system "unexpected end of file" 0
  | .userError details => .system details 0

def readPath (path : String) : IO (Except ReadError ByteArray) := do
  try
    return .ok (← IO.FS.readBinFile path)
  catch e =>
    return .error (readError e)

def filesFor (args : List String) : IO Files := do
  match CommandLine.read args with
  | .config ⟨_, some path, _, _⟩ =>
    let content ← readPath path
    return fun _ => content
  | _ => return fun _ => .error .notFound

def run (args : List String) : IO UInt32 := do
  let files ← filesFor args
  let exit := CommandLine.run files args
  match exit with
  | .success output => IO.print output
  | .failure e => IO.eprintln e.message
  | .usage => IO.eprint helpText
  return exit.code.toUInt32

end LambdaCalculus.Main

def main (args : List String) : IO UInt32 := LambdaCalculus.Main.run args
