import LambdaCalculus.Parser.Rules
import Mathlib.Logic.Relation

namespace LambdaCalculus.Parser

inductive Rule where
  | parameters | term | abstraction | group | expression | chain
  deriving DecidableEq, Repr

structure Entry (σ : Type) where
  rule : Rule
  source : σ

variable {σ : Type} [TokenSource σ]

/-- A run that has entered the one rule comes to enter the other from there. It does so while the
first is not done yet, or goes on in the second as the next round of a loop. -/
inductive Enters : Entry σ → Entry σ → Prop where
  | moreParameters {s s₁ s₂ : σ} {p t : Token} : take .identifier .parameter s = .ok (p, s₁) →
      ahead s₁ = .ok (t, s₂) → t.kind = .identifier → Enters ⟨.parameters, s⟩ ⟨.parameters, s₂⟩
  | abstraction {s s₁ : σ} {t : Token} : ahead s = .ok (t, s₁) → t.kind = .lambda →
      Enters ⟨.term, s⟩ ⟨.abstraction, s₁⟩
  | group {s s₁ : σ} {t : Token} : ahead s = .ok (t, s₁) → t.kind = .openParen →
      Enters ⟨.term, s⟩ ⟨.group, s₁⟩
  | parameters {s s₁ : σ} {t : Token} : take .lambda .term s = .ok (t, s₁) →
      Enters ⟨.abstraction, s⟩ ⟨.parameters, s₁⟩
  | body {s s₁ s₂ s₃ : σ} {t d : Token} {params : List String} :
      take .lambda .term s = .ok (t, s₁) → outcome (parameters s₁) = .ok (params, s₂) →
      take .dot .dot s₂ = .ok (d, s₃) → Enters ⟨.abstraction, s⟩ ⟨.expression, s₃⟩
  | grouped {s s₁ : σ} {t : Token} : take .openParen .term s = .ok (t, s₁) →
      Enters ⟨.group, s⟩ ⟨.expression, s₁⟩
  | operator (s : σ) : Enters ⟨.expression, s⟩ ⟨.term, s⟩
  | chain {s s₁ : σ} {f : Term} : outcome (term s) = .ok (f, s₁) →
      Enters ⟨.expression, s⟩ ⟨.chain, s₁⟩
  | operand {s s₁ : σ} {t : Token} : ahead s = .ok (t, s₁) → beginsTerm t.kind = true →
      Enters ⟨.chain, s⟩ ⟨.term, s₁⟩
  | moreChain {s s₁ s₂ : σ} {t : Token} {a : Term} : ahead s = .ok (t, s₁) →
      beginsTerm t.kind = true → outcome (term s₁) = .ok (a, s₂) → Enters ⟨.chain, s⟩ ⟨.chain, s₂⟩

def Entered (text : String) (entry : Entry Lexer) : Prop :=
  Relation.ReflTransGen Enters ⟨.expression, Lexer.ofText text⟩ entry

end LambdaCalculus.Parser
