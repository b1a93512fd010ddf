import LambdaCalculus.Token.Lexer

namespace LambdaCalculus

/-- What a parser reads from. `remaining` falls whenever a token other than the end is taken, and
looking ahead never raises it, so reading comes to an end. -/
class TokenSource (σ : Type) where
  next : σ → Except LexError (Token × σ)
  peek : σ → Except LexError (Token × σ)
  remaining : σ → Nat
  remaining_next {s s' : σ} {t : Token} :
    next s = .ok (t, s') → t.kind ≠ .endOfInput → remaining s' < remaining s
  remaining_peek {s s' : σ} {t : Token} : peek s = .ok (t, s') → remaining s' ≤ remaining s

def Lexer.answered (answer : Except LexError Token × Lexer) : Except LexError (Token × Lexer) :=
  answer.1.map (·, answer.2)

theorem Lexer.answered_eq_ok {answer : Except LexError Token × Lexer} {t : Token} {l : Lexer}
    (h : answered answer = .ok (t, l)) : answer = (.ok t, l) := by
  obtain ⟨_ | t', l'⟩ := answer
  · cases h
  · cases h; rfl

instance : TokenSource Lexer where
  next l := Lexer.answered l.next
  peek l := Lexer.answered l.peek
  remaining := Lexer.remaining
  remaining_next h := Lexer.remaining_next_lt (Lexer.answered_eq_ok h)
  remaining_peek h := Lexer.remaining_peek_le (Lexer.answered_eq_ok h)

end LambdaCalculus
