import LambdaCalculus.Parser

namespace LambdaCalculus.Parser

open TokenSource

variable {σ : Type} [TokenSource σ] {n m : Nat} {α β : Type}

/-- What was read, without the bound on what remains. -/
def outcome (r : Except ParseError (Parsed σ n α)) : Except ParseError (α × σ) :=
  r.map fun p => (p.value, p.rest)

def ahead (s : σ) : Except ParseError (Token × σ) := (peek s).mapError .lex

def take (kind : TokenKind) (expected : Expected) (s : σ) : Except ParseError (Token × σ) :=
  match next s with
  | .error e => .error (.lex e)
  | .ok (t, s') =>
    if t.kind = kind then .ok (t, s') else .error (.unexpected expected t.kind t.position)

theorem outcome_bind (r : Except ParseError (Parsed σ n α))
    (k : Parsed σ n α → Except ParseError (Parsed σ m β))
    (k' : α × σ → Except ParseError (β × σ))
    (h : ∀ p, outcome (k p) = k' (p.value, p.rest)) :
    outcome (r >>= k) = outcome r >>= k' := by
  cases r with
  | error e => rfl
  | ok p => exact h p

@[simp]
theorem outcome_lookahead (s : σ) : outcome (lookahead s) = ahead s := by
  unfold lookahead
  split
  · rename_i e hpeek
    exact (congrArg (Except.mapError ParseError.lex) hpeek).symm
  · rename_i t s' hpeek
    exact (congrArg (Except.mapError ParseError.lex) hpeek).symm

theorem outcome_expect (kind : TokenKind) (expected : Expected) (s : σ)
    (hkind : kind ≠ .endOfInput) :
    outcome (expect kind expected s hkind) = take kind expected s := by
  unfold expect take
  split
  · rename_i hnext
    simp [outcome, Except.map, hnext]
  · rename_i hnext
    split
    · rename_i hkind'
      simp [outcome, Except.map, hnext, hkind']
    · rename_i hkind'
      simp [outcome, Except.map, hnext, hkind']

theorem outcome_parameters (s : σ) :
    outcome (parameters s) = (do
      let (p, s₁) ← take .identifier .parameter s
      let (t, s₂) ← ahead s₁
      if t.kind = .identifier then
        let (ps, s₃) ← outcome (parameters s₂)
        return (p.text :: ps, s₃)
      else
        return ([p.text], s₂)) := by
  rw [parameters, ← outcome_expect _ _ _ (by decide)]
  refine outcome_bind _ _ _ fun p => ?_
  dsimp only
  rw [← outcome_lookahead]
  refine outcome_bind _ _ _ fun t => ?_
  dsimp only
  split
  · exact outcome_bind _ _ _ fun _ => rfl
  · rfl

theorem outcome_expression (s : σ) :
    outcome (expression s) = (do
      let (e, s₁) ← outcome (term s)
      outcome (chain e s₁)) := by
  rw [expression]
  refine outcome_bind _ _ _ fun p => ?_
  dsimp only
  cases chain p.value p.rest <;> rfl

theorem outcome_group (s : σ) :
    outcome (group s) = (do
      let (_, s₁) ← take .openParen .term s
      let (e, s₂) ← outcome (expression s₁)
      let (_, s₃) ← take .closeParen .closeParen s₂
      return (e, s₃)) := by
  rw [group, ← outcome_expect _ _ _ (by decide)]
  refine outcome_bind _ _ _ fun p => outcome_bind _ _ _ fun e => ?_
  dsimp only
  rw [← outcome_expect _ _ _ (by decide)]
  exact outcome_bind _ _ _ fun _ => rfl

theorem outcome_abstraction (s : σ) :
    outcome (abstraction s) = (do
      let (_, s₁) ← take .lambda .term s
      let (params, s₂) ← outcome (parameters s₁)
      let (_, s₃) ← take .dot .dot s₂
      let (body, s₄) ← outcome (expression s₃)
      return (body.abstractAll params, s₄)) := by
  rw [abstraction, ← outcome_expect _ _ _ (by decide)]
  refine outcome_bind _ _ _ fun p => outcome_bind _ _ _ fun params => ?_
  dsimp only
  rw [← outcome_expect _ _ _ (by decide)]
  exact outcome_bind _ _ _ fun _ => outcome_bind _ _ _ fun _ => rfl

theorem outcome_term (s : σ) :
    outcome (term s) = (do
      let (t, s₁) ← ahead s
      match t.kind with
      | .identifier =>
        let (x, s₂) ← take .identifier .term s₁
        return (.var x.text, s₂)
      | .lambda => outcome (abstraction s₁)
      | .openParen => outcome (group s₁)
      | found => .error (.unexpected .term found t.position)) := by
  rw [term, ← outcome_lookahead]
  refine outcome_bind _ _ _ fun t => ?_
  obtain ⟨⟨kind, text, position⟩, s₁, _⟩ := t
  dsimp only
  cases kind with
  | identifier =>
    dsimp only
    rw [← outcome_expect _ _ _ (by decide)]
    exact outcome_bind _ _ _ fun _ => rfl
  | lambda =>
    dsimp only
    cases abstraction s₁ <;> rfl
  | openParen =>
    dsimp only
    cases group s₁ <;> rfl
  | dot | closeParen | endOfInput => rfl

theorem outcome_chain (f : Term) (s : σ) :
    outcome (chain f s) = (do
      let (t, s₁) ← ahead s
      if beginsTerm t.kind then
        let (operand, s₂) ← outcome (term s₁)
        outcome (chain (.app f operand) s₂)
      else
        return (f, s₁)) := by
  rw [chain, ← outcome_lookahead]
  refine outcome_bind _ _ _ fun t => ?_
  dsimp only
  split
  · refine outcome_bind _ _ _ fun operand => ?_
    dsimp only
    cases chain (f.app operand.value) operand.rest <;> rfl
  · rfl

end LambdaCalculus.Parser
