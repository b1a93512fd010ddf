import LambdaCalculus.Text.Printable

namespace LambdaCalculus.Text.Quoted

def hexDigits (n : Nat) : List Char := Nat.toDigits 16 n

/-- A character as it stands between two quotation marks `mark`. One that cannot be printed alone is
written by its code point: a combining mark would merge with the opening quotation mark. -/
def escape (mark c : Char) : List Char :=
  match c with
  | '\x00' => ['\\', '0']
  | '\t' => ['\\', 't']
  | '\n' => ['\\', 'n']
  | '\r' => ['\\', 'r']
  | c =>
    if c = '\\' ∨ c = mark then ['\\', c]
    else if isPrintable c then [c]
    else ['\\', 'u', '\x7b'] ++ hexDigits c.toNat ++ ['\x7d']

def quote (mark : Char) (text : List Char) : String :=
  String.ofList (mark :: text.flatMap (escape mark) ++ [mark])

end LambdaCalculus.Text.Quoted
