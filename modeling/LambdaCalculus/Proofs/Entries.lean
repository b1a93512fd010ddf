import LambdaCalculus.Parser.Entry
import LambdaCalculus.Proofs.Derivation

namespace LambdaCalculus.Parser

variable {l l' : Lexer} {t : Token} {kind found : TokenKind} {position : Nat}

theorem exists_take_of_ahead (expected : Expected) (h : ahead l = .ok (t, l'))
    (ht : t.kind = kind) : ∃ l'', take kind expected l' = .ok (t, l'') := by
  have hpeek : l.peek = (.ok t, l') := Lexer.answered_eq_ok (mapError_eq_ok_iff.1 h)
  obtain ⟨hnext, hsame⟩ := Lexer.next_of_peek hpeek
  have hread : TokenSource.next l' = .ok (t, l'.next.2) := by
    change Lexer.answered l'.next = _
    rw [Lexer.answered, hsame, hnext]
    rfl
  refine ⟨l'.next.2, ?_⟩
  rw [take_eq, hread]
  exact if_pos ht

theorem exists_expect_of_ahead (expected : Expected) (hkind : kind ≠ .endOfInput)
    (h : ahead l = .ok (t, l')) (ht : t.kind = kind) :
    ∃ read, expect kind expected l' hkind = .ok read := by
  obtain ⟨l'', htake⟩ := exists_take_of_ahead expected h ht
  rw [← outcome_expect kind expected l' hkind] at htake
  obtain ⟨read, hread, -⟩ := map_eq_ok_iff.1 htake
  exact ⟨read, hread⟩

/-- A run from the entry comes to look for a term and sees a token that begins none. -/
def Misses (entry : Entry Lexer) (found : TokenKind) (position : Nat) : Prop :=
  ∃ l t l', Relation.ReflTransGen Enters entry ⟨.term, l⟩ ∧ ahead l = .ok (t, l') ∧
    beginsTerm t.kind = false ∧ t.kind = found ∧ t.position = position

theorem Misses.of_enters {entry next : Entry Lexer} (h : Enters entry next)
    (hnext : Misses next found position) : Misses entry found position := by
  obtain ⟨l, t, l', hreach, ht⟩ := hnext
  exact ⟨l, t, l', hreach.head h, ht⟩

theorem ahead_ne_unexpected (expected : Expected) :
    ahead l ≠ .error (.unexpected expected found position) := by
  intro h
  obtain ⟨e, -, he⟩ := mapError_eq_error_iff.1 h
  cases he

theorem expected_of_take_error {expected expected' : Expected}
    (h : take kind expected l = .error (.unexpected expected' found position)) :
    expected' = expected := by
  unfold take at h
  split at h
  · cases h
  · split at h
    · cases h
    · cases h
      rfl

theorem parameters_ne_missing_term (l : Lexer) :
    outcome (parameters l) ≠ .error (.unexpected .term found position) := by
  induction l using parameters_induction with
  | step l ih =>
    intro h
    rw [outcome_parameters] at h
    rcases bind_eq_error_iff.1 h with h | ⟨⟨p, l₁⟩, hp, h⟩
    · cases expected_of_take_error h
    · rcases bind_eq_error_iff.1 h with h | ⟨⟨t, l₂⟩, ht, h⟩
      · exact ahead_ne_unexpected _ h
      · dsimp only at h
        split at h
        · rename_i hk
          rcases bind_eq_error_iff.1 h with h | ⟨_, _, h⟩
          · exact ih p l₁ t l₂ hp ht hk h
          · cases h
        · cases h

/-- Only the rule for terms reports that a term is missing. -/
theorem rules_miss : (∀ l : Lexer,
      (outcome (term l) = .error (.unexpected .term found position) →
        Misses ⟨.term, l⟩ found position) ∧
      ((∃ t l', take .lambda .term l = .ok (t, l')) →
        outcome (abstraction l) = .error (.unexpected .term found position) →
        Misses ⟨.abstraction, l⟩ found position) ∧
      ((∃ t l', take .openParen .term l = .ok (t, l')) →
        outcome (group l) = .error (.unexpected .term found position) →
        Misses ⟨.group, l⟩ found position) ∧
      (outcome (expression l) = .error (.unexpected .term found position) →
        Misses ⟨.expression, l⟩ found position)) ∧
    ∀ f (l : Lexer), outcome (chain f l) = .error (.unexpected .term found position) →
      Misses ⟨.chain, l⟩ found position := by
  refine rules_induction _ _ _ _ _ ?term ?abstraction ?group ?expression ?chain
  case term =>
    intro l habs hgroup h
    rw [outcome_term] at h
    rcases bind_eq_error_iff.1 h with h | ⟨⟨t, l₁⟩, ht, h⟩
    · exact absurd h (ahead_ne_unexpected _)
    dsimp only at h
    cases hk : t.kind with
    | identifier =>
      obtain ⟨l₂, htake⟩ := exists_take_of_ahead .term ht hk
      simp only [hk, htake] at h
      cases h
    | lambda =>
      obtain ⟨l₂, htake⟩ := exists_take_of_ahead .term ht hk
      simp only [hk] at h
      exact (habs t l₁ ht hk ⟨t, l₂, htake⟩ h).of_enters (.abstraction ht hk)
    | openParen =>
      obtain ⟨l₂, htake⟩ := exists_take_of_ahead .term ht hk
      simp only [hk] at h
      exact (hgroup t l₁ ht hk ⟨t, l₂, htake⟩ h).of_enters (.group ht hk)
    | dot | closeParen | endOfInput =>
      simp only [hk] at h
      cases h
      exact ⟨l, t, l₁, .refl, ht, by rw [hk]; rfl, hk, rfl⟩
  case abstraction =>
    intro l ih htake h
    obtain ⟨t, l₁, ht⟩ := htake
    rw [outcome_abstraction, ht, ok_bind] at h
    rcases bind_eq_error_iff.1 h with h | ⟨⟨ps, l₂⟩, hps, h⟩
    · exact absurd h (parameters_ne_missing_term l₁)
    rcases bind_eq_error_iff.1 h with h | ⟨⟨d, l₃⟩, hd, h⟩
    · cases expected_of_take_error h
    rcases bind_eq_error_iff.1 h with h | ⟨_, _, h⟩
    · exact (ih t l₁ ps l₂ d l₃ ht hps hd h).of_enters (.body ht hps hd)
    · cases h
  case group =>
    intro l ih htake h
    obtain ⟨t, l₁, ht⟩ := htake
    rw [outcome_group, ht, ok_bind] at h
    rcases bind_eq_error_iff.1 h with h | ⟨⟨e, l₂⟩, _, h⟩
    · exact (ih t l₁ ht h).of_enters (.grouped ht)
    rcases bind_eq_error_iff.1 h with h | ⟨_, _, h⟩
    · cases expected_of_take_error h
    · cases h
  case expression =>
    intro l hterm hchain h
    rw [outcome_expression] at h
    rcases bind_eq_error_iff.1 h with h | ⟨⟨f, l₁⟩, hf, h⟩
    · exact (hterm h).of_enters (.operator l)
    · exact (hchain f l₁ hf h).of_enters (.chain hf)
  case chain =>
    intro f l ih h
    rw [outcome_chain] at h
    rcases bind_eq_error_iff.1 h with h | ⟨⟨t, l₁⟩, ht, h⟩
    · exact absurd h (ahead_ne_unexpected _)
    dsimp only at h
    split at h
    · rename_i hb
      obtain ⟨hterm, hchain⟩ := ih t l₁ ht hb
      rcases bind_eq_error_iff.1 h with h | ⟨⟨a, l₂⟩, ha, h⟩
      · exact (hterm h).of_enters (.operand ht hb)
      · exact (hchain a l₂ ha h).of_enters (.moreChain ht hb ha)
    · cases h

theorem misses_of_parse_error {text : String}
    (h : parse text = .error (.unexpected .term found position)) :
    Misses ⟨.expression, Lexer.ofText text⟩ found position := by
  rw [parse, program_eq] at h
  rcases bind_eq_error_iff.1 h with h | ⟨⟨e, l⟩, -, h⟩
  · exact (rules_miss.1 _).2.2.2 h
  · rcases bind_eq_error_iff.1 h with h | ⟨_, _, h⟩
    · cases expected_of_take_error h
    · cases h

theorem Entered.exists_enters {text : String} {rule : Rule} (h : Entered text ⟨rule, l⟩)
    (hrule : rule ≠ .expression) : ∃ entry : Entry Lexer, Enters entry ⟨rule, l⟩ := by
  rcases Relation.ReflTransGen.cases_tail h with hstart | ⟨entry, -, henters⟩
  · cases hstart
    exact absurd rfl hrule
  · exact ⟨entry, henters⟩

theorem Entered.expect_lambda {text : String} (h : Entered text ⟨.abstraction, l⟩) :
    ∃ read, expect .lambda .term l = .ok read := by
  obtain ⟨entry, henters⟩ := h.exists_enters (by decide)
  cases henters with
  | abstraction hahead ht => exact exists_expect_of_ahead .term (by decide) hahead ht

theorem Entered.expect_openParen {text : String} (h : Entered text ⟨.group, l⟩) :
    ∃ read, expect .openParen .term l = .ok read := by
  obtain ⟨entry, henters⟩ := h.exists_enters (by decide)
  cases henters with
  | group hahead ht => exact exists_expect_of_ahead .term (by decide) hahead ht

end LambdaCalculus.Parser
