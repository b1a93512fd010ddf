import LambdaCalculus.Proofs.Descent

namespace LambdaCalculus

structure Token.Similar (P : Nat → Nat → Prop) (t u : Token) : Prop where
  kind : t.kind = u.kind
  text : t.text = u.text
  position : P t.position u.position

inductive ParseError.Similar (P : Nat → Nat → Prop) : ParseError → ParseError → Prop where
  | unexpected (expected : Expected) (found : TokenKind) {p q : Nat} :
      P p q → Similar P (.unexpected expected found p) (.unexpected expected found q)
  | lex (error : LexError) : Similar P (.lex error) (.lex error)

/-- Both computations fail, or both succeed, and with corresponding results. -/
inductive Alike {ε α β : Type} (E : ε → ε → Prop) (A : α → β → Prop) :
    Except ε α → Except ε β → Prop where
  | error {e d : ε} : E e d → Alike E A (.error e) (.error d)
  | ok {a : α} {b : β} : A a b → Alike E A (.ok a) (.ok b)

theorem Alike.bind {ε α β γ δ : Type} {E : ε → ε → Prop} {A : α → β → Prop} {B : γ → δ → Prop}
    {x : Except ε α} {y : Except ε β} {k : α → Except ε γ} {l : β → Except ε δ}
    (h : Alike E A x y) (hk : ∀ a b, x = .ok a → A a b → Alike E B (k a) (l b)) :
    Alike E B (x >>= k) (y >>= l) := by
  cases h with
  | error he => exact .error he
  | ok ha => exact hk _ _ rfl ha

theorem Alike.map {ε α β γ δ : Type} {E : ε → ε → Prop} {A : α → β → Prop} {B : γ → δ → Prop}
    {x : Except ε α} {y : Except ε β} {f : α → γ} {g : β → δ} (h : Alike E A x y)
    (hfg : ∀ a b, A a b → B (f a) (g b)) : Alike E B (x.map f) (y.map g) := by
  cases h with
  | error he => exact .error he
  | ok ha => exact .ok (hfg _ _ ha)

theorem Alike.mapError {ε δ α β : Type} {E : ε → ε → Prop} {D : δ → δ → Prop}
    {A : α → β → Prop} {x : Except ε α} {y : Except ε β} {f : ε → δ} (h : Alike E A x y)
    (hf : ∀ e d, E e d → D (f e) (f d)) : Alike D A (x.mapError f) (y.mapError f) := by
  cases h with
  | error he => exact .error (hf _ _ he)
  | ok ha => exact .ok ha

namespace Parser

open TokenSource

variable {σ τ : Type} [TokenSource σ] [TokenSource τ]

def TokenAlike (P : Nat → Nat → Prop) (R : σ → τ → Prop) (a : Token × σ) (b : Token × τ) : Prop :=
  a.1.Similar P b.1 ∧ R a.2 b.2

def ValueAlike {α : Type} (R : σ → τ → Prop) (a : α × σ) (b : α × τ) : Prop :=
  a.1 = b.1 ∧ R a.2 b.2

structure Simulates (P : Nat → Nat → Prop) (R : σ → τ → Prop) : Prop where
  next {s : σ} {t : τ} : R s t → Alike (· = ·) (TokenAlike P R) (next s) (next t)
  peek {s : σ} {t : τ} : R s t → Alike (· = ·) (TokenAlike P R) (peek s) (peek t)

/-- Started in related sources, the two rules fail alike or build the same value. -/
def Tracks {α : Type} (P : Nat → Nat → Prop) (R : σ → τ → Prop)
    (f : σ → Except ParseError (α × σ)) (g : τ → Except ParseError (α × τ)) (s : σ) : Prop :=
  ∀ t, R s t → Alike (ParseError.Similar P) (ValueAlike R) (f s) (g t)

variable {P : Nat → Nat → Prop} {R : σ → τ → Prop} {s : σ} {t : τ}

theorem ahead_alike (hR : Simulates P R) (h : R s t) :
    Alike (ParseError.Similar P) (TokenAlike P R) (ahead s) (ahead t) :=
  (hR.peek h).mapError fun e _ he => he ▸ .lex e

theorem take_alike (hR : Simulates P R) (kind : TokenKind) (expected : Expected) (h : R s t) :
    Alike (ParseError.Similar P) (TokenAlike P R) (take kind expected s)
      (take kind expected t) := by
  rw [take_eq, take_eq]
  have hl : Alike (ParseError.Similar P) (TokenAlike P R) ((next s).mapError .lex)
      ((next t).mapError .lex) := (hR.next h).mapError fun e _ he => he ▸ .lex e
  refine hl.bind ?_
  rintro ⟨a, s₁⟩ ⟨b, t₁⟩ _ ⟨⟨hkind, htext, hpos⟩, hrest⟩
  dsimp only at hkind htext hpos ⊢
  rw [← hkind]
  split
  · exact .ok ⟨⟨hkind, htext, hpos⟩, hrest⟩
  · exact .error (.unexpected _ _ hpos)

theorem parameters_tracks (hR : Simulates P R) (s : σ) :
    Tracks P R (fun s => outcome (parameters s)) (fun t => outcome (parameters t)) s := by
  induction s using parameters_induction with
  | step s ih =>
    intro t h
    dsimp only
    rw [outcome_parameters, outcome_parameters]
    refine (take_alike hR .identifier .parameter h).bind ?_
    rintro ⟨p, s₁⟩ ⟨p', t₁⟩ hp ⟨⟨_, htext, _⟩, h₁⟩
    refine (ahead_alike hR h₁).bind ?_
    rintro ⟨a, s₂⟩ ⟨a', t₂⟩ ha ⟨⟨hkind, _, _⟩, h₂⟩
    dsimp only at htext hkind ⊢
    rw [← hkind, ← htext]
    split
    · rename_i hi
      refine (ih p s₁ a s₂ hp ha hi t₂ h₂).bind ?_
      rintro ⟨ps, s₃⟩ ⟨ps', t₃⟩ _ ⟨hps, h₃⟩
      exact .ok ⟨congrArg (p.text :: ·) hps, h₃⟩
    · exact .ok ⟨rfl, h₂⟩

/-- The rules look at kinds and texts only; a position is passed on to an error. -/
theorem expression_tracks (hR : Simulates P R) (s : σ) :
    Tracks P R (fun s => outcome (expression s)) (fun t => outcome (expression t)) s := by
  have key := rules_induction
    (Tracks P R (fun s => outcome (term s)) (fun t => outcome (term t)))
    (Tracks P R (fun s => outcome (abstraction s)) (fun t => outcome (abstraction t)))
    (Tracks P R (fun s => outcome (group s)) (fun t => outcome (group t)))
    (Tracks P R (fun s => outcome (expression s)) (fun t => outcome (expression t)))
    (fun f => Tracks P R (fun s => outcome (chain f s)) (fun t => outcome (chain f t)))
    ?term ?abstraction ?group ?expression ?chain
  exact (key.1 s).2.2.2
  case term =>
    intro s ha hg t h
    dsimp only
    rw [outcome_term, outcome_term]
    refine (ahead_alike hR h).bind ?_
    rintro ⟨⟨kind, text, pos⟩, s₁⟩ ⟨⟨kind', text', pos'⟩, t₁⟩ hs ⟨⟨hkind, htext, hpos⟩, h₁⟩
    dsimp only at hkind htext hpos ⊢
    subst hkind
    cases kind with
    | identifier =>
      refine (take_alike hR .identifier .term h₁).bind ?_
      rintro ⟨x, s₂⟩ ⟨x', t₂⟩ _ ⟨⟨_, hx, _⟩, h₂⟩
      exact .ok ⟨congrArg Term.var hx, h₂⟩
    | lambda => exact ha _ s₁ hs rfl t₁ h₁
    | openParen => exact hg _ s₁ hs rfl t₁ h₁
    | dot | closeParen | endOfInput => exact .error (.unexpected _ _ hpos)
  case abstraction =>
    intro s he t h
    dsimp only
    rw [outcome_abstraction, outcome_abstraction]
    refine (take_alike hR .lambda .term h).bind ?_
    rintro ⟨l, s₁⟩ ⟨l', t₁⟩ hl ⟨_, h₁⟩
    refine (parameters_tracks hR s₁ t₁ h₁).bind ?_
    rintro ⟨ps, s₂⟩ ⟨ps', t₂⟩ hps ⟨rfl, h₂⟩
    refine (take_alike hR .dot .dot h₂).bind ?_
    rintro ⟨d, s₃⟩ ⟨d', t₃⟩ hd ⟨_, h₃⟩
    refine (he l s₁ ps s₂ d s₃ hl hps hd t₃ h₃).bind ?_
    rintro ⟨b, s₄⟩ ⟨b', t₄⟩ _ ⟨rfl, h₄⟩
    exact .ok ⟨rfl, h₄⟩
  case group =>
    intro s he t h
    dsimp only
    rw [outcome_group, outcome_group]
    refine (take_alike hR .openParen .term h).bind ?_
    rintro ⟨o, s₁⟩ ⟨o', t₁⟩ ho ⟨_, h₁⟩
    refine (he o s₁ ho t₁ h₁).bind ?_
    rintro ⟨e, s₂⟩ ⟨e', t₂⟩ _ ⟨rfl, h₂⟩
    refine (take_alike hR .closeParen .closeParen h₂).bind ?_
    rintro ⟨c, s₃⟩ ⟨c', t₃⟩ _ ⟨_, h₃⟩
    exact .ok ⟨rfl, h₃⟩
  case expression =>
    intro s ht hc t h
    dsimp only
    rw [outcome_expression, outcome_expression]
    refine (ht t h).bind ?_
    rintro ⟨f, s₁⟩ ⟨f', t₁⟩ hf ⟨rfl, h₁⟩
    exact hc f s₁ hf t₁ h₁
  case chain =>
    intro f s hs t h
    dsimp only
    rw [outcome_chain, outcome_chain]
    refine (ahead_alike hR h).bind ?_
    rintro ⟨a, s₁⟩ ⟨a', t₁⟩ ha ⟨⟨hkind, _, _⟩, h₁⟩
    dsimp only at hkind ⊢
    rw [← hkind]
    split
    · rename_i hb
      obtain ⟨ht, hc⟩ := hs a s₁ ha hb
      refine (ht t₁ h₁).bind ?_
      rintro ⟨e, s₂⟩ ⟨e', t₂⟩ he ⟨rfl, h₂⟩
      exact hc e s₂ he t₂ h₂
    · exact .ok ⟨rfl, h₁⟩

theorem program_alike (hR : Simulates P R) (h : R s t) :
    Alike (ParseError.Similar P) (· = ·) (program s) (program t) := by
  rw [program_eq, program_eq]
  refine (expression_tracks hR s t h).bind ?_
  rintro ⟨e, s₁⟩ ⟨e', t₁⟩ _ ⟨rfl, h₁⟩
  refine (take_alike hR .endOfInput .endOfInput h₁).bind ?_
  rintro ⟨a, s₂⟩ ⟨a', t₂⟩ _ _
  exact .ok rfl

end Parser

end LambdaCalculus
