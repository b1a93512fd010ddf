import LambdaCalculus.Proofs.Rejection
import LambdaCalculus.Proofs.Tokenizing

namespace LambdaCalculus

namespace TokenStream

variable {s : TokenStream}

theorem ending_of_get_zero {e : LexError} (h : s.get 0 = .error e) : s.ending = .error e := by
  obtain ⟨_ | ⟨t, ts⟩, _ | position⟩ := s <;> cases h
  rfl

theorem mem_of_get_zero {t : Token} {e : LexError} (h : s.get 0 = .ok t)
    (hs : s.ending = .error e) : t ∈ s.tokens := by
  obtain ⟨_ | ⟨u, ts⟩, ending⟩ := s <;> cases hs <;> cases h
  exact List.mem_cons_self

theorem Raises.ending_of_lex {e : LexError} (h : s.Raises (.lex e)) : s.ending = .error e := by
  cases h with
  | lex h => exact ending_of_get_zero h

theorem Raises.of_ending_error {e : ParseError} {d : LexError} (h : s.Raises e)
    (hs : s.ending = .error d) : e = .lex d ∨
      ∃ expected, ∃ t ∈ s.tokens, e = .unexpected expected t.kind t.position := by
  cases h with
  | lex h =>
    cases (ending_of_get_zero h).symm.trans hs
    exact .inl rfl
  | unexpected expected h _ => exact .inr ⟨expected, _, mem_of_get_zero h hs, rfl⟩

end TokenStream

/-- To read tokens on demand makes no difference when the whole text has tokens. When it has not,
the parser comes to the same error, or has failed at a token in front of it. -/
theorem parse_of_tokenize (text : String) :
    (∀ ts, tokenize text = .ok ts →
      parse text = Parser.program (TokenStream.ofTokens ts) ∧
        ∀ e, parse text ≠ .error (.lex e)) ∧
      ∀ c p, tokenize text = .error (.unrecognizedCharacter c p) →
        parse text = .error (.lex (.unrecognizedCharacter c p)) ∨
          ∃ expected found q, parse text = .error (.unexpected expected found q) ∧ q < p ∧
            found ≠ .endOfInput := by
  refine ⟨fun ts hts => ⟨?_, fun e he => ?_⟩, fun c p hlex => ?_⟩
  · rw [ofTokens_of_tokenize hts, parse_eq_program]
  · obtain ⟨position, hend, -⟩ := tokenize_eq_ok.1 hts
    obtain ⟨us, s, hs, hraise, -⟩ := parse_rejects he
    rw [hs] at hend
    cases hraise.ending_of_lex.symm.trans hend
  · have hend := tokenize_eq_error.1 hlex
    cases hparse : parse text with
    | ok e =>
      obtain ⟨⟨position, hok⟩, -⟩ := parse_eq_ok.1 hparse
      cases hend.symm.trans hok
    | error e =>
      obtain ⟨us, s, hs, hraise, -⟩ := parse_rejects hparse
      have hlt := ((Lexes.ofText text).position_lt hend).2
      have hlexical := TokenStream.lexical_ofText text
      rw [hs] at hend hlt hlexical
      rcases hraise.of_ending_error hend with rfl | ⟨expected, t, ht, rfl⟩
      · exact .inl rfl
      · exact .inr ⟨expected, t.kind, t.position, rfl, hlt t (List.mem_append_right us ht),
          (hlexical.of_prepend t ht).kind_ne_endOfInput⟩

theorem parse_of_tokenize_unread :
    (∃ ts, tokenize "(λx.x) y" = .ok ts ∧
      parse "(λx.x) y" = Parser.program (TokenStream.ofTokens ts)) ∧
    tokenize "x ) 1" = .error (.unrecognizedCharacter '1' 4) ∧
      (parse "x ) 1" = .error (.lex (.unrecognizedCharacter '1' 4)) ∨
        ∃ expected found q, parse "x ) 1" = .error (.unexpected expected found q) ∧ q < 4 ∧
          found ≠ .endOfInput) := by
  have hok : tokenize "(λx.x) y" = .ok
      [⟨.openParen, "(", 0⟩, ⟨.lambda, "λ", 1⟩, ⟨.identifier, "x", 3⟩, ⟨.dot, ".", 4⟩,
        ⟨.identifier, "x", 5⟩, ⟨.closeParen, ")", 6⟩, ⟨.identifier, "y", 8⟩, .atEnd 9] := by
    decide +kernel
  have herror : tokenize "x ) 1" = .error (.unrecognizedCharacter '1' 4) := by decide +kernel
  exact ⟨⟨_, hok, ((parse_of_tokenize _).1 _ hok).1⟩, herror,
    (parse_of_tokenize _).2 _ _ herror⟩

end LambdaCalculus
