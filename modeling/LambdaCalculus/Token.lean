namespace LambdaCalculus

inductive TokenKind where
  | lambda | identifier | dot | openParen | closeParen | endOfInput
  deriving DecidableEq, Repr

def TokenKind.description : TokenKind → String
  | lambda => "'λ'"
  | identifier => "identifier"
  | dot => "'.'"
  | openParen => "'('"
  | closeParen => "')'"
  | endOfInput => "end of input"

/-- The position counts the bytes of UTF-8 in front of the token. -/
structure Token where
  kind : TokenKind
  text : String
  position : Nat
  deriving DecidableEq, Repr

def Token.atEnd (position : Nat) : Token := ⟨.endOfInput, "", position⟩

end LambdaCalculus
