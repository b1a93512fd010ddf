import LambdaCalculus.Token

namespace LambdaCalculus

def IsIdentifier (text : List Char) : Prop :=
  ∃ c cs, text = c :: cs ∧ c.isAlpha = true ∧ ∀ d ∈ cs, d.isAlphanum = true

inductive Lexeme : TokenKind → List Char → Prop where
  | lambda : Lexeme .lambda ['λ']
  | identifier {text : List Char} : IsIdentifier text → Lexeme .identifier text
  | dot : Lexeme .dot ['.']
  | openParen : Lexeme .openParen ['(']
  | closeParen : Lexeme .closeParen [')']

end LambdaCalculus
