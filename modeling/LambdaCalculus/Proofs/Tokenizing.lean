import LambdaCalculus.Proofs.Derivation

namespace LambdaCalculus

theorem Lexer.coherent_of_next {l l' : Lexer} {answer : Except LexError Token}
    (h : l.next = (answer, l')) : l'.Coherent := by
  have hp := l.peeked_next
  rw [h] at hp
  exact coherent_of_none hp

theorem Lexer.tokens_eq {l : Lexer} (hl : l.Coherent) :
    l.tokens = (TokenStream.ofLexer l).ending.map fun position =>
      (TokenStream.ofLexer l).tokens ++ [.atEnd position] := by
  fun_induction Lexer.tokens l with
  | case1 l e l' h =>
    rw [TokenStream.ofLexer_error h]
    rfl
  | case2 l t l' h ht =>
    rw [TokenStream.ofLexer_end h ht, (next_at_end hl h ht).1]
    rfl
  | case3 l t l' h ht _ e hrest ih =>
    rw [ih (coherent_of_next h)] at hrest
    rw [TokenStream.ofLexer_token h ht]
    cases hend : (TokenStream.ofLexer l').ending with
    | error d =>
      rw [hend] at hrest
      cases hrest
      simp [TokenStream.prepend, hend, Except.map]
    | ok position =>
      rw [hend] at hrest
      cases hrest
  | case4 l t l' h ht _ ts hrest ih =>
    rw [ih (coherent_of_next h)] at hrest
    rw [TokenStream.ofLexer_token h ht]
    cases hend : (TokenStream.ofLexer l').ending with
    | error d =>
      rw [hend] at hrest
      cases hrest
    | ok position =>
      rw [hend] at hrest
      cases hrest
      simp [TokenStream.prepend, hend, Except.map]

theorem tokenize_eq (text : String) :
    tokenize text = (TokenStream.ofText text).ending.map fun position =>
      (TokenStream.ofText text).tokens ++ [.atEnd position] :=
  Lexer.tokens_eq (Lexer.coherent_of_none rfl)

theorem tokenize_eq_ok {text : String} {ts : List Token} :
    tokenize text = .ok ts ↔ ∃ position, (TokenStream.ofText text).ending = .ok position ∧
      ts = (TokenStream.ofText text).tokens ++ [.atEnd position] := by
  rw [tokenize_eq]
  cases (TokenStream.ofText text).ending with
  | error e => simp [Except.map]
  | ok position => simp [Except.map, eq_comm]

theorem tokenize_eq_error {text : String} {e : LexError} :
    tokenize text = .error e ↔ (TokenStream.ofText text).ending = .error e := by
  rw [tokenize_eq]
  cases (TokenStream.ofText text).ending <;> simp [Except.map]

theorem tokenize_eq_ok_iff_spells {text : String} {ts : List Token} :
    tokenize text = .ok ts ↔
      ∃ us, Spells 0 text.toList us ∧ ts = us ++ [.atEnd text.utf8ByteSize] := by
  have hsize : text.utf8ByteSize = 0 + byteLength text.toList := by
    rw [Nat.zero_add, byteLength_toList]
  rw [tokenize_eq_ok, hsize]
  constructor
  · rintro ⟨position, hend, rfl⟩
    obtain ⟨hus, rfl⟩ := (Lexes.ofText text).spells hend
    exact ⟨_, hus, rfl⟩
  · rintro ⟨us, hus, rfl⟩
    rw [Lexes.ofText_eq hus.lexes]
    exact ⟨_, rfl, rfl⟩

theorem TokenStream.Lexical.filter_eq {s : TokenStream} (hs : s.Lexical) (position : Nat) :
    (s.tokens ++ [Token.atEnd position]).filter (·.kind ≠ .endOfInput) = s.tokens := by
  have hkind : ∀ t ∈ s.tokens, decide (t.kind ≠ .endOfInput) = true := fun t ht =>
    decide_eq_true (hs t ht).kind_ne_endOfInput
  rw [List.filter_append, List.filter_eq_self.2 hkind]
  simp [Token.atEnd]

theorem ofTokens_of_tokenize {text : String} {ts : List Token} (h : tokenize text = .ok ts) :
    TokenStream.ofTokens ts = TokenStream.ofText text := by
  obtain ⟨position, hend, rfl⟩ := tokenize_eq_ok.1 h
  rw [TokenStream.ofTokens, (TokenStream.lexical_ofText text).filter_eq]
  simp [← hend, Token.atEnd]

theorem ofTokens_word_of_tokenize {text : String} {ts : List Token} (h : tokenize text = .ok ts) :
    Word.ofTokens ts = (TokenStream.ofText text).tokens.map Token.symbol := by
  obtain ⟨position, _, rfl⟩ := tokenize_eq_ok.1 h
  rw [Word.ofTokens, (TokenStream.lexical_ofText text).filter_eq]
  rfl

end LambdaCalculus
