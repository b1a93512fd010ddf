import LambdaCalculus.Token

namespace LambdaCalculus.Token

/-- The lexemes of a kind: a character from `first`, then as many as there are from `more`. -/
structure Rule where
  kind : TokenKind
  first : Char → Bool
  more : Char → Bool

namespace Rule

def single (kind : TokenKind) (glyph : Char) : Rule :=
  ⟨kind, (· == glyph), fun _ => false⟩

def lexeme? (rule : Rule) : List Char → Option (List Char)
  | [] => none
  | c :: cs => if rule.first c then some (c :: cs.takeWhile rule.more) else none

/-- Keeps the lexeme found so far unless the next rule has a longer one. -/
def longer (input : List Char) (best : Option (TokenKind × List Char)) (rule : Rule) :
    Option (TokenKind × List Char) :=
  match rule.lexeme? input, best with
  | none, best => best
  | some lexeme, none => some (rule.kind, lexeme)
  | some lexeme, some (kind, found) =>
    if found.length < lexeme.length then some (rule.kind, lexeme) else some (kind, found)

def longest (rules : List Rule) (input : List Char) : Option (TokenKind × List Char) :=
  rules.foldl (longer input) none

def all : List Rule :=
  [single .lambda 'λ',
    ⟨.identifier, Char.isAlpha, Char.isAlphanum⟩,
    single .dot '.',
    single .openParen '(',
    single .closeParen ')']

theorem lexeme?_prefix {rule : Rule} {input lexeme : List Char}
    (h : rule.lexeme? input = some lexeme) : lexeme ≠ [] ∧ lexeme <+: input := by
  cases input with
  | nil => simp [lexeme?] at h
  | cons c cs =>
    simp only [lexeme?, Option.ite_none_right_eq_some, Option.some.injEq] at h
    obtain ⟨_, rfl⟩ := h
    exact ⟨List.cons_ne_nil _ _, List.cons_prefix_cons.2 ⟨rfl, List.takeWhile_prefix _⟩⟩

theorem longer_eq_some {input lexeme : List Char} {best : Option (TokenKind × List Char)}
    {rule : Rule} {kind : TokenKind} (h : longer input best rule = some (kind, lexeme)) :
    best = some (kind, lexeme) ∨ (rule.kind = kind ∧ rule.lexeme? input = some lexeme) := by
  unfold longer at h
  split at h <;> grind

theorem foldl_longer_eq_some {rules : List Rule} {input lexeme : List Char}
    {best : Option (TokenKind × List Char)} {kind : TokenKind}
    (h : rules.foldl (longer input) best = some (kind, lexeme)) :
    best = some (kind, lexeme) ∨
      ∃ rule ∈ rules, rule.kind = kind ∧ rule.lexeme? input = some lexeme := by
  induction rules generalizing best with
  | nil => exact .inl h
  | cons r rs ih =>
    rcases ih h with hr | ⟨rule, hrule, found⟩
    · exact (longer_eq_some hr).imp_right fun hr => ⟨r, List.mem_cons_self, hr⟩
    · exact .inr ⟨rule, List.mem_cons_of_mem _ hrule, found⟩

theorem longest_eq_some {rules : List Rule} {input lexeme : List Char} {kind : TokenKind}
    (h : longest rules input = some (kind, lexeme)) :
    ∃ rule ∈ rules, rule.kind = kind ∧ rule.lexeme? input = some lexeme :=
  (foldl_longer_eq_some h).resolve_left (Option.some_ne_none _ ·.symm)

end Rule

end LambdaCalculus.Token
