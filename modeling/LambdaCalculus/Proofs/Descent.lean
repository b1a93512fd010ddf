import LambdaCalculus.Data.Except
import LambdaCalculus.Parser.Rules

namespace LambdaCalculus.Parser

open TokenSource

variable {σ : Type} [TokenSource σ]

theorem take_eq (kind : TokenKind) (expected : Expected) (s : σ) :
    take kind expected s = (next s).mapError .lex >>= fun read =>
      if read.1.kind = kind then .ok read
      else .error (.unexpected expected read.1.kind read.1.position) := by
  unfold take
  cases next s <;> rfl

theorem remaining_of_outcome {n : Nat} {α : Type} {r : Except ParseError (Parsed σ n α)} {a : α}
    {s' : σ} (h : outcome r = .ok (a, s')) : remaining s' < n := by
  cases r with
  | error e => cases h
  | ok p =>
    have hp := p.shorter
    cases h
    exact hp

theorem remaining_of_take {kind : TokenKind} {expected : Expected} {s s' : σ} {t : Token}
    (hkind : kind ≠ .endOfInput) (h : take kind expected s = .ok (t, s')) :
    remaining s' < remaining s := by
  rw [← outcome_expect kind expected s hkind] at h
  exact remaining_of_outcome h

theorem remaining_of_ahead {s s' : σ} {t : Token} (h : ahead s = .ok (t, s')) :
    remaining s' ≤ remaining s := by
  rw [← outcome_lookahead] at h
  exact Nat.le_of_lt_succ (remaining_of_outcome h)

theorem program_eq (s : σ) :
    program s = (do
      let (e, s₁) ← outcome (expression s)
      let (_, _) ← take .endOfInput .endOfInput s₁
      return e) := by
  rw [program]
  cases expression s with
  | error e => rfl
  | ok p =>
    change _ = take .endOfInput .endOfInput p.rest >>= fun _ => pure p.value
    unfold take
    dsimp only [bind, Except.bind]
    cases next p.rest with
    | error e => rfl
    | ok read =>
      by_cases ht : read.1.kind = .endOfInput <;> simp [ht]

theorem parameters_induction {P : σ → Prop}
    (step : ∀ s, (∀ p s₁ t s₂, take .identifier .parameter s = .ok (p, s₁) →
      ahead s₁ = .ok (t, s₂) → t.kind = .identifier → P s₂) → P s) (s : σ) : P s := by
  induction hn : remaining s using Nat.strongRecOn generalizing s with
  | ind n ih =>
    refine step s fun p s₁ t s₂ hp ht _ => ih (remaining s₂) ?_ s₂ rfl
    have h₁ := remaining_of_take (by decide) hp
    have h₂ := remaining_of_ahead ht
    omega

/-- One premise for each rule of the grammar. A rule may assume its property of every source at
which a run of it enters another rule, because a token has been taken before any rule is entered a
second time. -/
theorem rules_induction (Pt Pa Pg Pe : σ → Prop) (Pc : Term → σ → Prop)
    (term : ∀ s, (∀ t s₁, ahead s = .ok (t, s₁) → t.kind = .lambda → Pa s₁) →
      (∀ t s₁, ahead s = .ok (t, s₁) → t.kind = .openParen → Pg s₁) → Pt s)
    (abstraction : ∀ s, (∀ t s₁ ps s₂ d s₃, take .lambda .term s = .ok (t, s₁) →
      outcome (parameters s₁) = .ok (ps, s₂) → take .dot .dot s₂ = .ok (d, s₃) → Pe s₃) → Pa s)
    (group : ∀ s, (∀ t s₁, take .openParen .term s = .ok (t, s₁) → Pe s₁) → Pg s)
    (expression : ∀ s, Pt s → (∀ f s₁, outcome (Parser.term s) = .ok (f, s₁) → Pc f s₁) → Pe s)
    (chain : ∀ f s, (∀ t s₁, ahead s = .ok (t, s₁) → beginsTerm t.kind = true → Pt s₁ ∧
      ∀ a s₂, outcome (Parser.term s₁) = .ok (a, s₂) → Pc (.app f a) s₂) → Pc f s) :
    (∀ s, Pt s ∧ Pa s ∧ Pg s ∧ Pe s) ∧ ∀ f s, Pc f s := by
  have key : ∀ n, (∀ s, remaining s < n → Pt s ∧ Pa s ∧ Pg s ∧ Pe s) ∧
      ∀ f s, remaining s < n → Pc f s := by
    intro n
    induction n with
    | zero => exact ⟨fun s hs => absurd hs (Nat.not_lt_zero _), fun f s hs =>
        absurd hs (Nat.not_lt_zero _)⟩
    | succ n ih =>
      obtain ⟨hs', hc'⟩ := ih
      have ha : ∀ s, remaining s ≤ n → Pa s := by
        intro s hs
        refine abstraction s fun t s₁ ps s₂ d s₃ ht hps hd => (hs' s₃ ?_).2.2.2
        have h₁ := remaining_of_take (by decide) ht
        have h₂ := remaining_of_outcome hps
        have h₃ := remaining_of_take (by decide) hd
        omega
      have hg : ∀ s, remaining s ≤ n → Pg s := by
        intro s hs
        refine group s fun t s₁ ht => (hs' s₁ ?_).2.2.2
        have h₁ := remaining_of_take (by decide) ht
        omega
      have ht : ∀ s, remaining s ≤ n → Pt s := fun s hs =>
        term s (fun t s₁ h _ => ha s₁ (Nat.le_trans (remaining_of_ahead h) hs))
          (fun t s₁ h _ => hg s₁ (Nat.le_trans (remaining_of_ahead h) hs))
      have hc : ∀ f s, remaining s ≤ n → Pc f s := by
        intro f s hs
        refine chain f s fun t s₁ h _ => ⟨ht s₁ (Nat.le_trans (remaining_of_ahead h) hs), ?_⟩
        intro a s₂ h₂
        have h₁ := remaining_of_ahead h
        have h₃ := remaining_of_outcome h₂
        exact hc' _ s₂ (by omega)
      have he : ∀ s, remaining s ≤ n → Pe s := by
        intro s hs
        refine expression s (ht s hs) fun f s₁ h => hc f s₁ ?_
        have h₁ := remaining_of_outcome h
        omega
      constructor
      · intro s hs
        have hle := Nat.le_of_lt_succ hs
        exact ⟨ht s hle, ha s hle, hg s hle, he s hle⟩
      · exact fun f s hs => hc f s (Nat.le_of_lt_succ hs)
  exact ⟨fun s => (key (remaining s + 1)).1 s (Nat.lt_succ_self _),
    fun f s => (key (remaining s + 1)).2 f s (Nat.lt_succ_self _)⟩

end LambdaCalculus.Parser
