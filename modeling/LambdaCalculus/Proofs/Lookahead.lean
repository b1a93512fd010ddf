import LambdaCalculus.Proofs.Derivation

namespace LambdaCalculus

theorem TokenStream.get_zero_prepend {s u : TokenStream} (h : u.get 0 = s.get 0)
    (us : List Token) : (u.prepend us).get 0 = (s.prepend us).get 0 := by
  cases us with
  | nil => exact h
  | cons t us => rfl

namespace Parser

open Grammar

variable {α β : Type} {kind : TokenKind} {expected : Expected} {s u : TokenStream} {t : Token}

theorem ahead_eq_error {e : ParseError} :
    ahead s = .error e ↔ ∃ d, s.get 0 = .error d ∧ e = .lex d := by
  rw [ahead_eq_get]
  cases s.get 0 <;> simp [Except.map, Except.mapError, eq_comm]

theorem take_eq_get (kind : TokenKind) (expected : Expected) (s : TokenStream) :
    take kind expected s = (s.get 0).mapError .lex >>= fun t =>
      if t.kind = kind then .ok (t, ⟨s.tokens.tail, s.ending⟩)
      else .error (.unexpected expected t.kind t.position) := by
  obtain ⟨_ | ⟨t, ts⟩, _ | position⟩ := s <;> rfl

theorem take_eq_error {e : ParseError} :
    take kind expected s = .error e ↔ (∃ d, s.get 0 = .error d ∧ e = .lex d) ∨
      ∃ t, s.get 0 = .ok t ∧ t.kind ≠ kind ∧ e = .unexpected expected t.kind t.position := by
  rw [take_eq_get]
  cases s.get 0 with
  | error d => simp [Except.mapError, bind, Except.bind, eq_comm]
  | ok t =>
    by_cases hk : t.kind = kind <;>
      simp [Except.mapError, bind, Except.bind, hk, eq_comm (a := e)]

theorem Stops.congr (hs : Stops s) (h : u.get 0 = s.get 0) : Stops u := by
  obtain ⟨t, ht, hkind⟩ := hs
  obtain ⟨hget, -⟩ := ahead_eq_ok.1 ht
  exact ⟨t, ahead_eq_ok.2 ⟨h.trans hget, rfl⟩, hkind⟩

theorem Stops.beginsTerm_eq_false (hs : Stops s) (ht : s.get 0 = .ok t) :
    beginsTerm t.kind = false := by
  obtain ⟨u, hu, hkind⟩ := hs
  rw [(ahead_eq_ok.1 hu).1] at ht
  cases ht
  exact hkind

abbrev Run (α : Type) := TokenStream → Except ParseError (α × TokenStream)

/-- A run that succeeds takes a word off the stream which stands in `D` to the value and to the
stream behind it, and it does so whatever comes behind the next token. -/
def Repeats (D : Word → α → TokenStream → Prop) (f : Run α) (s : TokenStream) : Prop :=
  ∀ a s', f s = .ok (a, s') → ∃ us, s = s'.prepend us ∧ D (us.map Token.symbol) a s' ∧
    ∀ u : TokenStream, u.get 0 = s'.get 0 → f (u.prepend us) = .ok (a, u)

theorem Consumes.repeats {D : Word → α → TokenStream → Prop} {f : Run α}
    (h : Consumes D s (f s))
    (hf : ∀ us a s', D (us.map Token.symbol) a s' → ∀ u : TokenStream, u.get 0 = s'.get 0 →
      f (u.prepend us) = .ok (a, u)) : Repeats D f s := by
  intro a s' ha
  obtain ⟨us, hus, hd⟩ := h a s' ha
  exact ⟨us, hus, hd, hf us a s' hd⟩

theorem ahead_repeats (s : TokenStream) :
    Repeats (fun w t s' => w = [] ∧ s' = s ∧ s.get 0 = .ok t) ahead s := by
  intro t s' h
  obtain ⟨hget, rfl⟩ := ahead_eq_ok.1 h
  exact ⟨[], rfl, ⟨rfl, rfl, hget⟩, fun u hu => ahead_eq_ok.2 ⟨hu.trans hget, rfl⟩⟩

theorem take_repeats {D : Word → Token → TokenStream → Prop}
    (h : Consumes D s (take kind expected s))
    (hD : ∀ w t s', D w t s' → ∃ x, w = [(kind, x)]) : Repeats D (take kind expected) s := by
  intro t s' ht
  obtain ⟨us, rfl, hd⟩ := h t s' ht
  obtain ⟨x, hx⟩ := hD _ t s' hd
  obtain ⟨v, rfl, hv⟩ := List.map_eq_singleton_iff.1 hx
  have hk := (Token.symbol_eq.1 hv).1
  rw [take_prepend expected s' hk] at ht
  cases ht
  exact ⟨[t], rfl, hd, fun u _ => take_prepend expected u hk⟩

theorem take_identifier_repeats (expected : Expected) (s : TokenStream) :
    Repeats (fun w t _ => w = [(.identifier, t.text)]) (take .identifier expected) s :=
  take_repeats (take_consumes expected s (by decide)) fun _ _ _ hw => ⟨_, hw⟩

theorem take_glyph_repeats (glyph : String) (expected : Expected) (hs : s.Lexical)
    (hglyph : Lexeme kind glyph.toList) (hkind : kind ≠ .identifier) :
    Repeats (fun w _ _ => w = [(kind, glyph)]) (take kind expected) s :=
  take_repeats (take_glyph_consumes glyph expected hs hglyph hkind) fun _ _ _ hw => ⟨_, hw⟩

theorem ahead_of_parameters (s : TokenStream) : ∀ ps s', outcome (parameters s) = .ok (ps, s') →
    ∃ t, s'.get 0 = .ok t ∧ t.kind ≠ .identifier := by
  induction s using parameters_induction with
  | step s ih =>
    intro ps s' h
    rw [outcome_parameters] at h
    obtain ⟨⟨p, s₁⟩, hp, h⟩ := bind_eq_ok_iff.1 h
    obtain ⟨⟨t, s₂⟩, ht, h⟩ := bind_eq_ok_iff.1 h
    dsimp only at h
    split at h
    · rename_i hk
      obtain ⟨⟨qs, s₃⟩, hqs, h⟩ := bind_eq_ok_iff.1 h
      cases h
      exact ih p s₁ t s₂ hp ht hk qs s₃ hqs
    · rename_i hk
      cases h
      obtain ⟨hget, rfl⟩ := ahead_eq_ok.1 ht
      exact ⟨t, hget, hk⟩

theorem parameters_repeats (hs : s.Lexical) :
    Repeats (fun w ps s' => Parameters w ps ∧ ∃ t, s'.get 0 = .ok t ∧ t.kind ≠ .identifier)
      (fun s => outcome (parameters s)) s := by
  intro ps s' h
  obtain ⟨us, hus, hps⟩ := parameters_consumes s hs ps s' h
  obtain ⟨t, ht, hk⟩ := ahead_of_parameters s ps s' h
  exact ⟨us, hus, ⟨hps, t, ht, hk⟩, fun u hu =>
    parameters_reads hps rfl (ahead_eq_ok.2 ⟨hu.trans ht, rfl⟩) hk⟩

theorem term_repeats (hs : s.Lexical) :
    Repeats (fun w e s' => Atom w e ∨ Abstraction w e ∧ Stops s')
      (fun s => outcome (term s)) s := by
  refine ((rules_consume.1 s).1 hs).repeats ?_
  rintro us e s' (ha | ⟨ha, hstops⟩) u hu
  · exact term_reads_atom ha rfl
  · exact term_reads_abstraction ha rfl (hstops.congr hu)

theorem expression_repeats (hs : s.Lexical) :
    Repeats (fun w e s' => Expression w e ∧ Stops s') (fun s => outcome (expression s)) s := by
  refine ((rules_consume.1 s).2.2.2 hs).repeats ?_
  rintro us e s' ⟨he, hstops⟩ u hu
  exact expression_reads he rfl (hstops.congr hu)

end Parser

end LambdaCalculus
