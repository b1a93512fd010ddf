import LambdaCalculus.Parser.Entry
import LambdaCalculus.Proofs.LazyReading

namespace LambdaCalculus

/-- The source is read on by looking ahead and by taking the tokens, of which none is the end of the
text. -/
inductive Passes {σ : Type} [TokenSource σ] : σ → List Token → σ → Prop where
  | refl (s : σ) : Passes s [] s
  | peek {s s₁ s₂ : σ} {t : Token} {ts : List Token} : TokenSource.peek s = .ok (t, s₁) →
      Passes s₁ ts s₂ → Passes s ts s₂
  | next {s s₁ s₂ : σ} {t : Token} {ts : List Token} : TokenSource.next s = .ok (t, s₁) →
      t.kind ≠ .endOfInput → Passes s₁ ts s₂ → Passes s (t :: ts) s₂

namespace Passes

variable {σ : Type} [TokenSource σ] {s s₁ s₂ : σ} {ts us : List Token}

theorem trans (h : Passes s ts s₁) (h' : Passes s₁ us s₂) : Passes s (ts ++ us) s₂ := by
  induction h with
  | refl => exact h'
  | peek hpeek _ ih => exact .peek hpeek (ih h')
  | next hnext ht _ ih => exact .next hnext ht (ih h')

open TokenSource in
theorem remaining_add_length_le (h : Passes s ts s₁) :
    remaining s₁ + ts.length ≤ remaining s := by
  induction h with
  | refl => exact Nat.le_refl _
  | peek hpeek _ ih => exact Nat.le_trans ih (remaining_peek hpeek)
  | next hnext ht _ ih =>
    have hlt := remaining_next hnext ht
    rw [List.length_cons]
    omega

theorem ofLexer_eq {l l' : Lexer} (h : Passes l ts l') :
    TokenStream.ofLexer l = (TokenStream.ofLexer l').prepend ts := by
  induction h with
  | refl => rfl
  | peek hpeek _ ih =>
    obtain ⟨-, hsame⟩ := Lexer.next_of_peek (Lexer.answered_eq_ok hpeek)
    rw [← TokenStream.ofLexer_congr hsame, ih]
  | next hnext ht _ ih =>
    rw [TokenStream.ofLexer_token (Lexer.answered_eq_ok hnext) ht, ih]
    rfl

end Passes

namespace Parser

variable {σ : Type} [TokenSource σ] {α β : Type} {s s₁ s' : σ} {t : Token}

theorem passes_of_ahead (h : ahead s = .ok (t, s₁)) : Passes s [] s₁ :=
  .peek (mapError_eq_ok_iff.1 h) (.refl s₁)

theorem passes_of_take {kind : TokenKind} {expected : Expected} (hkind : kind ≠ .endOfInput)
    (h : take kind expected s = .ok (t, s₁)) : Passes s [t] s₁ ∧ t.kind = kind := by
  rw [take_eq] at h
  obtain ⟨⟨u, s₂⟩, hnext, h⟩ := bind_eq_ok_iff.1 h
  dsimp only at h
  split at h
  · rename_i hu
    cases h
    exact ⟨.next (mapError_eq_ok_iff.1 hnext) (hu ▸ hkind) (.refl s₁), hu⟩
  · cases h

def Takes (run : σ → Except ParseError (α × σ)) (s : σ) : Prop :=
  ∀ a s', run s = .ok (a, s') → ∃ ts, ts ≠ [] ∧ Passes s ts s'

def AtBreak (s : σ) : Prop := ∃ s₀ t, ahead s₀ = .ok (t, s) ∧ beginsTerm t.kind = false

theorem take_takes {kind : TokenKind} {expected : Expected} (hkind : kind ≠ .endOfInput) (s : σ) :
    Takes (take kind expected) s := fun t _ h =>
  ⟨[t], List.cons_ne_nil t [], (passes_of_take hkind h).1⟩

theorem parameters_takes (s : σ) : Takes (fun s => outcome (parameters s)) s := by
  induction s using parameters_induction with
  | step s ih =>
    intro ps s' h
    dsimp only at h
    rw [outcome_parameters] at h
    obtain ⟨⟨p, s₁⟩, hp, h⟩ := bind_eq_ok_iff.1 h
    obtain ⟨⟨t, s₂⟩, ht, h⟩ := bind_eq_ok_iff.1 h
    have hfirst := (passes_of_take (by decide) hp).1.trans (passes_of_ahead ht)
    dsimp only at h
    split at h
    · rename_i hk
      obtain ⟨⟨qs, s₃⟩, hqs, h⟩ := bind_eq_ok_iff.1 h
      cases h
      obtain ⟨ts, -, hts⟩ := ih p s₁ t s₂ hp ht hk qs _ hqs
      exact ⟨p :: ts, List.cons_ne_nil p ts, hfirst.trans hts⟩
    · cases h
      exact ⟨[p], List.cons_ne_nil p [], hfirst⟩

theorem rules_take :
    (∀ s : σ, Takes (fun s => outcome (term s)) s ∧ Takes (fun s => outcome (abstraction s)) s ∧
      Takes (fun s => outcome (group s)) s ∧ Takes (fun s => outcome (expression s)) s) ∧
    ∀ f (s : σ) e s', outcome (chain f s) = .ok (e, s') → (∃ ts, Passes s ts s') ∧ AtBreak s' := by
  refine rules_induction _ _ _ _ _ ?term ?abstraction ?group ?expression ?chain
  case term =>
    intro s habs hgroup e s' h
    dsimp only at h
    rw [outcome_term] at h
    obtain ⟨⟨t, s₁⟩, ht, h⟩ := bind_eq_ok_iff.1 h
    have hahead := passes_of_ahead ht
    dsimp only at h
    cases hk : t.kind with
    | identifier =>
      simp only [hk] at h
      obtain ⟨⟨x, s₂⟩, hx, h⟩ := bind_eq_ok_iff.1 h
      cases h
      exact ⟨[x], List.cons_ne_nil x [], hahead.trans (passes_of_take (by decide) hx).1⟩
    | lambda =>
      simp only [hk] at h
      obtain ⟨ts, hne, hts⟩ := habs t s₁ ht hk e s' h
      exact ⟨ts, hne, hahead.trans hts⟩
    | openParen =>
      simp only [hk] at h
      obtain ⟨ts, hne, hts⟩ := hgroup t s₁ ht hk e s' h
      exact ⟨ts, hne, hahead.trans hts⟩
    | dot | closeParen | endOfInput =>
      simp only [hk] at h
      cases h
  case abstraction =>
    intro s ih e s' h
    dsimp only at h
    rw [outcome_abstraction] at h
    obtain ⟨⟨t, s₁⟩, ht, h⟩ := bind_eq_ok_iff.1 h
    obtain ⟨⟨ps, s₂⟩, hps, h⟩ := bind_eq_ok_iff.1 h
    obtain ⟨⟨d, s₃⟩, hd, h⟩ := bind_eq_ok_iff.1 h
    obtain ⟨⟨b, s₄⟩, hb, h⟩ := bind_eq_ok_iff.1 h
    cases h
    obtain ⟨us, -, hus⟩ := parameters_takes s₁ ps s₂ hps
    obtain ⟨vs, -, hvs⟩ := ih t s₁ ps s₂ d s₃ ht hps hd b _ hb
    have hfront := ((passes_of_take (by decide) ht).1.trans hus).trans
      (passes_of_take (by decide) hd).1
    exact ⟨_, List.cons_ne_nil t _, hfront.trans hvs⟩
  case group =>
    intro s ih e s' h
    dsimp only at h
    rw [outcome_group] at h
    obtain ⟨⟨t, s₁⟩, ht, h⟩ := bind_eq_ok_iff.1 h
    obtain ⟨⟨a, s₂⟩, ha, h⟩ := bind_eq_ok_iff.1 h
    obtain ⟨⟨c, s₃⟩, hc, h⟩ := bind_eq_ok_iff.1 h
    cases h
    obtain ⟨us, -, hus⟩ := ih t s₁ ht _ s₂ ha
    exact ⟨_, List.cons_ne_nil t _, ((passes_of_take (by decide) ht).1.trans hus).trans
      (passes_of_take (by decide) hc).1⟩
  case expression =>
    intro s hterm hchain e s' h
    dsimp only at h
    rw [outcome_expression] at h
    obtain ⟨⟨f, s₁⟩, hf, h⟩ := bind_eq_ok_iff.1 h
    obtain ⟨us, hne, hus⟩ := hterm f s₁ hf
    obtain ⟨⟨vs, hvs⟩, -⟩ := hchain f s₁ hf e s' h
    exact ⟨us ++ vs, List.append_ne_nil_of_left_ne_nil hne vs, hus.trans hvs⟩
  case chain =>
    intro f s ih e s' h
    rw [outcome_chain] at h
    obtain ⟨⟨t, s₁⟩, ht, h⟩ := bind_eq_ok_iff.1 h
    have hahead := passes_of_ahead ht
    dsimp only at h
    split at h
    · rename_i hb
      obtain ⟨hterm, hchain⟩ := ih t s₁ ht hb
      obtain ⟨⟨a, s₂⟩, ha, h⟩ := bind_eq_ok_iff.1 h
      obtain ⟨us, -, hus⟩ := hterm a s₂ ha
      obtain ⟨⟨vs, hvs⟩, hbreak⟩ := hchain a s₂ ha e s' h
      exact ⟨⟨_, (hahead.trans hus).trans hvs⟩, hbreak⟩
    · rename_i hb
      cases h
      exact ⟨⟨[], hahead⟩, s, t, ht, Bool.not_eq_true _ ▸ hb⟩

theorem AtBreak.exists_peeked {l : Lexer} (h : AtBreak l) :
    ∃ t, l.peeked = some t ∧ t.kind ∈ [.dot, .closeParen, .endOfInput] := by
  obtain ⟨l₀, t, ht, hkind⟩ := h
  have hpeek : l₀.peek = (.ok t, l) := Lexer.answered_eq_ok (mapError_eq_ok_iff.1 ht)
  have hpeeked : l.peeked = some t := by
    rcases Lexer.peek_eq_ok.1 hpeek with ⟨hp, rfl⟩ | ⟨-, c, -, rfl⟩
    · exact hp
    · rfl
  refine ⟨t, hpeeked, ?_⟩
  revert hkind
  cases t.kind <;> decide

theorem atBreak_of_expression {e : Term} (h : outcome (expression s) = .ok (e, s')) :
    AtBreak s' := by
  rw [outcome_expression] at h
  obtain ⟨⟨f, s₁⟩, -, h⟩ := bind_eq_ok_iff.1 h
  exact (rules_take.2 f s₁ e s' h).2

/-- Whether a loop goes round again or an expression is begun inside of another, a token has been
taken since. -/
theorem Enters.exists_passes {entry next : Entry σ} (h : Enters entry next)
    (hrule : next.rule ∈ [.parameters, .chain, .expression]) :
    ∃ ts, ts ≠ [] ∧ Passes entry.source ts next.source := by
  cases h with
  | moreParameters hp ht _ =>
    exact ⟨_, List.cons_ne_nil _ _, (passes_of_take (by decide) hp).1.trans (passes_of_ahead ht)⟩
  | abstraction | group | operator | operand => simp at hrule
  | parameters ht | grouped ht => exact take_takes (by decide) _ _ _ ht
  | body ht hps hd =>
    obtain ⟨us, -, hus⟩ := parameters_takes _ _ _ hps
    exact ⟨_, List.cons_ne_nil _ _, ((passes_of_take (by decide) ht).1.trans hus).trans
      (passes_of_take (by decide) hd).1⟩
  | chain hf => exact (rules_take.1 _).1 _ _ hf
  | moreChain ht _ ha =>
    obtain ⟨us, hne, hus⟩ := (rules_take.1 _).1 _ _ ha
    exact ⟨us, hne, (passes_of_ahead ht).trans hus⟩

end Parser

end LambdaCalculus
