import LambdaCalculus.Token.Cursor

namespace LambdaCalculus

inductive Expected where
  | term | parameter | dot | closeParen | endOfInput
  deriving DecidableEq, Repr

def Expected.description : Expected → String
  | term => "term"
  | parameter => "parameter (variable) after 'λ'"
  | dot => "'.' after parameters"
  | closeParen => "')'"
  | endOfInput => "end of input"

inductive ParseError where
  | unexpected (expected : Expected) (found : TokenKind) (position : Nat)
  | lex (error : LexError)
  deriving DecidableEq, Repr

def ParseError.position : ParseError → Nat
  | unexpected _ _ position => position
  | lex (.unrecognizedCharacter _ position) => position

def ParseError.message : ParseError → String
  | unexpected expected found position =>
    let wanted := expected.description
    let seen := found.description
    s!"Expected {wanted} at position {position}, found {seen}"
  | lex error => error.message

end LambdaCalculus
