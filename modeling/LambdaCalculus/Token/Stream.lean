import LambdaCalculus.Token.Source

namespace LambdaCalculus

/-- Tokens that have all been read already, and how the text ends: at a position, or in front of a
character that begins no token. The ending repeats for ever. -/
structure TokenStream where
  tokens : List Token
  ending : Except LexError Nat

namespace TokenStream

def next : TokenStream → Except LexError (Token × TokenStream)
  | ⟨t :: ts, ending⟩ => .ok (t, ⟨ts, ending⟩)
  | ⟨[], ending⟩ => ending.map fun position => (.atEnd position, ⟨[], ending⟩)

def peek (s : TokenStream) : Except LexError (Token × TokenStream) :=
  s.next.map fun read => (read.1, s)

def get (s : TokenStream) (n : Nat) : Except LexError Token :=
  match s.tokens[n]? with
  | some t => .ok t
  | none => s.ending.map .atEnd

instance : TokenSource TokenStream where
  next := next
  peek := peek
  remaining s := s.tokens.length
  remaining_next {s s' t} h ht := by
    obtain ⟨_ | ⟨t', ts⟩, ending⟩ := s
    · cases ending <;> cases h
      exact absurd rfl ht
    · cases h; simp
  remaining_peek {s s' t} h := by
    unfold peek at h
    cases hn : s.next <;> rw [hn] at h <;> cases h
    exact Nat.le_refl _

def ofTokens (ts : List Token) : TokenStream :=
  ⟨ts.filter (·.kind ≠ .endOfInput), .ok ((ts.getLast?.map Token.position).getD 0)⟩

def ofLexer (l : Lexer) : TokenStream :=
  match h : l.next with
  | (.error e, _) => ⟨[], .error e⟩
  | (.ok t, l') =>
    if ht : t.kind = .endOfInput then ⟨[], .ok t.position⟩
    else
      have := Lexer.remaining_next_lt h ht
      let s := ofLexer l'
      ⟨t :: s.tokens, s.ending⟩
termination_by l.remaining

def ofText (text : String) : TokenStream := ofLexer (.ofText text)

end TokenStream

end LambdaCalculus
