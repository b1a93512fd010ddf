import LambdaCalculus.Parser.Error
import LambdaCalculus.Term
import LambdaCalculus.Token.Source

namespace LambdaCalculus.Parser

open TokenSource

variable {σ : Type} [TokenSource σ]

/-- A value that was read, and the source behind it, which has less than `bound` remaining. -/
structure Parsed (σ : Type) [TokenSource σ] (bound : Nat) (α : Type) where
  value : α
  rest : σ
  shorter : remaining rest < bound

def lookahead (s : σ) : Except ParseError (Parsed σ (remaining s + 1) Token) :=
  match h : peek s with
  | .error e => .error (.lex e)
  | .ok (t, s') => .ok ⟨t, s', Nat.lt_succ_of_le (remaining_peek h)⟩

def expect (kind : TokenKind) (expected : Expected) (s : σ)
    (hkind : kind ≠ .endOfInput := by decide) : Except ParseError (Parsed σ (remaining s) Token) :=
  match h : next s with
  | .error e => .error (.lex e)
  | .ok (t, s') =>
    if ht : t.kind = kind then .ok ⟨t, s', remaining_next h (ht ▸ hkind)⟩
    else .error (.unexpected expected t.kind t.position)

def beginsTerm : TokenKind → Bool
  | .identifier | .lambda | .openParen => true
  | .dot | .closeParen | .endOfInput => false

def parameters (s : σ) : Except ParseError (Parsed σ (remaining s) (List String)) := do
  let ⟨p, s₁, h₁⟩ ← expect .identifier .parameter s
  let ⟨t, s₂, h₂⟩ ← lookahead s₁
  if t.kind = .identifier then
    let ⟨ps, s₃, h₃⟩ ← parameters s₂
    return ⟨p.text :: ps, s₃, by omega⟩
  else
    return ⟨[p.text], s₂, by omega⟩
termination_by remaining s

mutual

def term (s : σ) : Except ParseError (Parsed σ (remaining s) Term) := do
  let ⟨t, s₁, h₁⟩ ← lookahead s
  match t.kind with
  | .identifier =>
    let ⟨x, s₂, h₂⟩ ← expect .identifier .term s₁
    return ⟨.var x.text, s₂, by omega⟩
  | .lambda =>
    let ⟨e, s₂, h₂⟩ ← abstraction s₁
    return ⟨e, s₂, by omega⟩
  | .openParen =>
    let ⟨e, s₂, h₂⟩ ← group s₁
    return ⟨e, s₂, by omega⟩
  | found => .error (.unexpected .term found t.position)
termination_by 4 * remaining s + 2

/-- The body of an abstraction is a whole expression: it ends where no term can begin. -/
def abstraction (s : σ) : Except ParseError (Parsed σ (remaining s) Term) := do
  let ⟨_, s₁, h₁⟩ ← expect .lambda .term s
  let ⟨params, s₂, h₂⟩ ← parameters s₁
  let ⟨_, s₃, h₃⟩ ← expect .dot .dot s₂
  let ⟨body, s₄, h₄⟩ ← expression s₃
  return ⟨body.abstractAll params, s₄, by omega⟩
termination_by 4 * remaining s

def group (s : σ) : Except ParseError (Parsed σ (remaining s) Term) := do
  let ⟨_, s₁, h₁⟩ ← expect .openParen .term s
  let ⟨e, s₂, h₂⟩ ← expression s₁
  let ⟨_, s₃, h₃⟩ ← expect .closeParen .closeParen s₂
  return ⟨e, s₃, by omega⟩
termination_by 4 * remaining s

def expression (s : σ) : Except ParseError (Parsed σ (remaining s) Term) := do
  let ⟨e, s₁, h₁⟩ ← term s
  let ⟨e', s₂, h₂⟩ ← chain e s₁
  return ⟨e', s₂, by omega⟩
termination_by 4 * remaining s + 3

def chain (operator : Term) (s : σ) : Except ParseError (Parsed σ (remaining s + 1) Term) := do
  let ⟨t, s₁, h₁⟩ ← lookahead s
  if beginsTerm t.kind then
    let ⟨operand, s₂, h₂⟩ ← term s₁
    let ⟨e, s₃, h₃⟩ ← chain (.app operator operand) s₂
    return ⟨e, s₃, by omega⟩
  else
    return ⟨operator, s₁, h₁⟩
termination_by 4 * remaining s + 3

end

def program (s : σ) : Except ParseError Term := do
  let ⟨e, s₁, _⟩ ← expression s
  match next s₁ with
  | .error e => .error (.lex e)
  | .ok (t, _) =>
    if t.kind = .endOfInput then return e
    else .error (.unexpected .endOfInput t.kind t.position)

end Parser

def parse (text : String) : Except ParseError Term := Parser.program (Lexer.ofText text)

def isValid (text : String) : Bool :=
  match parse text with
  | .ok _ => true
  | .error _ => false

end LambdaCalculus
