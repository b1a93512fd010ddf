import LambdaCalculus.Parser.Rules

namespace LambdaCalculus

namespace Parser

/-- A call that waits for the value of another: an abstraction for its body, a group for what it
encloses, an expression for its first term or for one of those that follow. -/
inductive Frame where
  | body (params : List String)
  | closing
  | operator
  | operand (operator : Term)
  deriving DecidableEq, Repr

inductive Control where
  | term
  | abstraction
  | parameters (found : List String)
  | group
  | expression
  | chain (operator : Term)
  | returned (value : Term)
  deriving DecidableEq, Repr

/-- The parser without recursion. The calls that wait stand in a list, the innermost first. -/
inductive Machine (σ : Type) where
  | running (control : Control) (frames : List Frame) (source : σ)
  | stopped (value : Term)
  deriving DecidableEq, Repr

variable {σ : Type} [TokenSource σ]

namespace Machine

def step : Machine σ → Except ParseError (Machine σ)
  | running .term frames s => do
    let (t, s₁) ← ahead s
    match t.kind with
    | .identifier =>
      let (x, s₂) ← take .identifier .term s₁
      return running (.returned (.var x.text)) frames s₂
    | .lambda => return running .abstraction frames s₁
    | .openParen => return running .group frames s₁
    | found => .error (.unexpected .term found t.position)
  | running .abstraction frames s => do
    let (_, s₁) ← take .lambda .term s
    return running (.parameters []) frames s₁
  | running (.parameters found) frames s => do
    let (p, s₁) ← take .identifier .parameter s
    let (t, s₂) ← ahead s₁
    if t.kind = .identifier then
      return running (.parameters (found ++ [p.text])) frames s₂
    else
      let (_, s₃) ← take .dot .dot s₂
      return running .expression (.body (found ++ [p.text]) :: frames) s₃
  | running .group frames s => do
    let (_, s₁) ← take .openParen .term s
    return running .expression (.closing :: frames) s₁
  | running .expression frames s => return running .term (.operator :: frames) s
  | running (.chain f) frames s => do
    let (t, s₁) ← ahead s
    if beginsTerm t.kind then
      return running .term (.operand f :: frames) s₁
    else
      return running (.returned f) frames s₁
  | running (.returned e) [] s => do
    let (_, _) ← take .endOfInput .endOfInput s
    return stopped e
  | running (.returned e) (.body params :: frames) s =>
    return running (.returned (e.abstractAll params)) frames s
  | running (.returned e) (.closing :: frames) s => do
    let (_, s₁) ← take .closeParen .closeParen s
    return running (.returned e) frames s₁
  | running (.returned f) (.operator :: frames) s => return running (.chain f) frames s
  | running (.returned a) (.operand f :: frames) s => return running (.chain (.app f a)) frames s
  | stopped e => return stopped e

def run (m : Machine σ) : Nat → Except ParseError (Machine σ)
  | 0 => .ok m
  | n + 1 => do
    let next ← m.step
    next.run n

def start (text : String) : Machine Lexer := running .expression [] (.ofText text)

end Machine

@[simp]
def Control.nesting : Control → Nat
  | expression | chain _ => 1
  | term | abstraction | parameters _ | group | returned _ => 0

@[simp]
def Frame.inExpression : Frame → Bool
  | operator | operand _ => true
  | body _ | closing => false

/-- The number of expressions that have been begun and are not finished yet. -/
def Machine.nesting : Machine σ → Nat
  | running control frames _ => control.nesting + frames.countP Frame.inExpression
  | stopped _ => 0

end Parser

def Token.opens (t : Token) : Bool := t.kind == .openParen || t.kind == .dot

end LambdaCalculus
