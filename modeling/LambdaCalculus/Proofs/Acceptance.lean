import LambdaCalculus.Proofs.Tokenizing

namespace LambdaCalculus

namespace Grammar

theorem IsExpression.append {v w : Word} (hv : IsExpression v) (hw : IsExpression w) :
    IsExpression (v ++ w) := by
  match hv with
  | .single ht => exact .chain ht hw
  | .chain ht hr =>
    rw [List.append_assoc]
    exact .chain ht (hr.append hw)

mutual

theorem Expression.isExpression {w : Word} {e : Term} (h : Expression w e) : IsExpression w := by
  match h with
  | .chain hc => exact hc.isExpression
  | .abs ha => exact .single ha.isTerm
  | .chainAbs hc ha => exact hc.isExpression.append (.single ha.isTerm)

theorem Chain.isExpression {w : Word} {f : Term} (h : Chain w f) : IsExpression w := by
  match h with
  | .atom ha => exact .single ha.isTerm
  | .app hc ha => exact hc.isExpression.append (.single ha.isTerm)

theorem Atom.isTerm {w : Word} {e : Term} (h : Atom w e) : IsTerm w := by
  match h with
  | .var x => exact .var x
  | .group he => exact .group he.isExpression

theorem Abstraction.isTerm {w : Word} {e : Term} (h : Abstraction w e) : IsTerm w := by
  match h with
  | .abs hp he => exact .abs hp he.isExpression

end

theorem Chain.append_chain {v w : Word} {f g : Term} (hf : Chain v f) (hg : Chain w g) :
    ∃ h, Chain (v ++ w) h := by
  match hg with
  | .atom ha => exact ⟨_, .app hf ha⟩
  | .app hc ha =>
    obtain ⟨h, hh⟩ := hf.append_chain hc
    rw [← List.append_assoc]
    exact ⟨_, .app hh ha⟩

theorem Chain.append_expression {v w : Word} {f e : Term} (hf : Chain v f)
    (he : Expression w e) : ∃ g, Expression (v ++ w) g := by
  cases he with
  | chain hc =>
    obtain ⟨g, hg⟩ := hf.append_chain hc
    exact ⟨g, .chain hg⟩
  | abs ha => exact ⟨_, .chainAbs hf ha⟩
  | chainAbs hc ha =>
    obtain ⟨g, hg⟩ := hf.append_chain hc
    rw [← List.append_assoc]
    exact ⟨_, .chainAbs hg ha⟩

mutual

theorem Expression.append {v w : Word} {e f : Term} (he : Expression v e)
    (hf : Expression w f) : ∃ g, Expression (v ++ w) g := by
  match he with
  | .chain hc => exact hc.append_expression hf
  | .abs ha =>
    obtain ⟨g, hg⟩ := ha.append hf
    exact ⟨g, .abs hg⟩
  | .chainAbs hc ha =>
    obtain ⟨g, hg⟩ := ha.append hf
    rw [List.append_assoc]
    exact ⟨_, .chainAbs hc hg⟩

theorem Abstraction.append {v w : Word} {e f : Term} (he : Abstraction v e)
    (hf : Expression w f) : ∃ g, Abstraction (v ++ w) g := by
  match he with
  | .abs hp hb =>
    obtain ⟨g, hg⟩ := hb.append hf
    rw [List.append_assoc]
    exact ⟨_, .abs hp hg⟩

end

mutual

theorem IsExpression.exists_expression {w : Word} (h : IsExpression w) :
    ∃ e, Expression w e := by
  match h with
  | .single ht => exact ht.exists_expression
  | .chain ht hr =>
    obtain ⟨e, he⟩ := ht.exists_expression
    obtain ⟨f, hf⟩ := hr.exists_expression
    exact he.append hf

theorem IsTerm.exists_expression {w : Word} (h : IsTerm w) : ∃ e, Expression w e := by
  match h with
  | .var x => exact ⟨_, .chain (.atom (.var x))⟩
  | .abs hp hb =>
    obtain ⟨e, he⟩ := hb.exists_expression
    exact ⟨_, .abs (.abs hp he)⟩
  | .group hb =>
    obtain ⟨e, he⟩ := hb.exists_expression
    exact ⟨e, .chain (.atom (.group he))⟩

end

/-- A word has one tree at most, because the parser finds every tree that it has. -/
theorem Expression.unique {w : Word} {e f : Term} (he : Expression w e) (hf : Expression w f) :
    e = f := by
  let us : List Token := w.map fun symbol => ⟨symbol.1, symbol.2, 0⟩
  have hus : us.map Token.symbol = w := by
    rw [List.map_map]
    exact List.map_id w
  have hread := Parser.expression_reads he hus (Parser.stops_at_end 0)
  rw [Parser.expression_reads hf hus (Parser.stops_at_end 0)] at hread
  cases hread
  rfl

theorem isExpression_iff_existsUnique (w : Word) : IsExpression w ↔ ∃! e, Expression w e := by
  constructor
  · intro h
    obtain ⟨e, he⟩ := h.exists_expression
    exact ⟨e, he, fun f hf => hf.unique he⟩
  · rintro ⟨e, he, -⟩
    exact he.isExpression

end Grammar

open Grammar

theorem isValid_iff (text : String) : isValid text = true ↔ ∃ e, parse text = .ok e := by
  unfold isValid
  cases parse text <;> simp

theorem parse_eq_ok_iff_tokenize {text : String} {e : Term} :
    parse text = .ok e ↔
      ∃ ts, tokenize text = .ok ts ∧ Expression (Word.ofTokens ts) e := by
  rw [parse_eq_ok]
  constructor
  · rintro ⟨⟨position, hend⟩, he⟩
    have hts := tokenize_eq_ok.2 ⟨position, hend, rfl⟩
    refine ⟨_, hts, ?_⟩
    rwa [ofTokens_word_of_tokenize hts]
  · rintro ⟨ts, hts, he⟩
    obtain ⟨position, hend, -⟩ := tokenize_eq_ok.1 hts
    rw [ofTokens_word_of_tokenize hts] at he
    exact ⟨⟨position, hend⟩, he⟩

/-- The parser accepts the words of the ambiguous grammar, and of each word it builds the only tree
that it has in the grammar without ambiguity. -/
theorem parse_iff_grammar (text : String) :
    (isValid text = true ↔
        ∃ ts, tokenize text = .ok ts ∧ IsExpression (Word.ofTokens ts)) ∧
      (∀ e, parse text = .ok e ↔
        ∃ ts, tokenize text = .ok ts ∧ Expression (Word.ofTokens ts) e) ∧
      ∀ w, IsExpression w ↔ ∃! e, Expression w e := by
  refine ⟨?_, fun e => parse_eq_ok_iff_tokenize, isExpression_iff_existsUnique⟩
  rw [isValid_iff]
  constructor
  · rintro ⟨e, he⟩
    obtain ⟨ts, hts, hw⟩ := parse_eq_ok_iff_tokenize.1 he
    exact ⟨ts, hts, hw.isExpression⟩
  · rintro ⟨ts, hts, hw⟩
    obtain ⟨e, he⟩ := hw.exists_expression
    exact ⟨e, parse_eq_ok_iff_tokenize.2 ⟨ts, hts, he⟩⟩

end LambdaCalculus
