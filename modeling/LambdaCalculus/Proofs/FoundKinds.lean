import LambdaCalculus.Proofs.Entries
import LambdaCalculus.Proofs.ErrorPosition
import LambdaCalculus.Proofs.Lossless

namespace LambdaCalculus

def Expected.reported : Expected → List TokenKind
  | term => [.dot, .closeParen, .endOfInput]
  | parameter => [.lambda, .dot, .openParen, .closeParen, .endOfInput]
  | dot => [.lambda, .openParen, .closeParen, .endOfInput]
  | closeParen => [.dot, .endOfInput]
  | endOfInput => [.dot, .closeParen]

theorem Expected.refuses_iff_mem_reported {expected : Expected} {found : TokenKind} :
    expected.refuses found = true ↔ found ∈ expected.reported := by
  cases expected <;> cases found <;> decide

theorem Expected.identifier_notMem_reported (expected : Expected) :
    .identifier ∉ expected.reported := by
  cases expected <;> decide

theorem mem_reported_of_parse_error {text : String} {expected : Expected} {found : TokenKind}
    {position : Nat} (h : parse text = .error (.unexpected expected found position)) :
    found ∈ expected.reported := by
  obtain ⟨us, s, -, hraise, -⟩ := parse_rejects h
  cases hraise with
  | unexpected _ _ hrefuse => exact Expected.refuses_iff_mem_reported.1 hrefuse

/-- A text behind which the parser expects nothing else. -/
def Expected.front : Expected → String
  | term => ""
  | parameter => "λ"
  | dot => "λx"
  | closeParen => "(x"
  | endOfInput => "x"

def TokenKind.sample : TokenKind → String
  | lambda => "λ"
  | identifier => "x"
  | dot => "."
  | openParen => "("
  | closeParen => ")"
  | endOfInput => ""

theorem parse_front_sample {expected : Expected} {found : TokenKind}
    (h : found ∈ expected.reported) :
    parse (expected.front ++ found.sample) =
      .error (.unexpected expected found expected.front.utf8ByteSize) := by
  revert h
  cases expected <;> cases found <;> decide +kernel

theorem parse_error_split {text : String} {e : ParseError} (h : parse text = .error e) :
    ∃ front back, text.toList = front ++ back ∧ byteLength front = e.position ∧
      (e.atEnd = true ↔ back = []) := by
  obtain ⟨us, s, hstream, hraise, -⟩ := parse_rejects h
  have hlex := Lexes.ofText text
  rw [hstream] at hlex
  obtain ⟨front, back, htext, hspace, hs, -⟩ := hlex.split
  rw [Nat.zero_add] at hs
  obtain ⟨hposition, hend, hpiece⟩ := hs.of_raises hspace hraise
  refine ⟨front, back, htext, hposition.symm, hend, fun hback => ?_⟩
  by_contra hat
  obtain ⟨c, cs, rest, hsplit, -⟩ := hpiece (Bool.not_eq_true _ ▸ hat)
  simp [hback] at hsplit

theorem parse_error_position_eq_iff {text : String} {e : ParseError} (h : parse text = .error e) :
    e.position = text.utf8ByteSize ↔ e.atEnd = true := by
  obtain ⟨front, back, htext, hposition, hend⟩ := parse_error_split h
  have hsize : text.utf8ByteSize = byteLength front + byteLength back := by
    rw [← byteLength_toList, htext, byteLength_append]
  rw [hend, hsize, ← hposition]
  constructor
  · intro hback
    exact eq_nil_of_byteLength (by omega)
  · rintro rfl
    rfl

/-- Where the parser expects one thing, it finds a few kinds of token only, and each of them in some
text. The end of the text is found at its end alone. That a term is missing is reported where a term
is looked for, and never by the rules for abstractions and groups, which find the token that they
begin with at every entry. -/
theorem parse_unexpected_found :
    (∀ expected found, (∃ text position,
      parse text = .error (.unexpected expected found position)) ↔ found ∈ expected.reported) ∧
    (∀ text expected found position, parse text = .error (.unexpected expected found position) →
      found ≠ .identifier ∧ (position = text.utf8ByteSize ↔ found = .endOfInput)) ∧
    (∀ text found position, parse text = .error (.unexpected .term found position) →
      ∃ l t l', Parser.Entered text ⟨.term, l⟩ ∧ Parser.ahead l = .ok (t, l') ∧
        Parser.beginsTerm t.kind = false ∧ t.kind = found ∧ t.position = position) ∧
    (∀ text l, Parser.Entered text ⟨.abstraction, l⟩ →
      ∃ read, Parser.expect .lambda .term l = .ok read) ∧
    ∀ text l, Parser.Entered text ⟨.group, l⟩ →
      ∃ read, Parser.expect .openParen .term l = .ok read := by
  refine ⟨fun expected found => ⟨?_, fun h => ⟨_, _, parse_front_sample h⟩⟩, ?_,
    fun text found position => Parser.misses_of_parse_error,
    fun text l => Parser.Entered.expect_lambda, fun text l => Parser.Entered.expect_openParen⟩
  · rintro ⟨text, position, h⟩
    exact mem_reported_of_parse_error h
  · intro text expected found position h
    have hposition := parse_error_position_eq_iff h
    refine ⟨?_, by simpa [ParseError.position, ParseError.atEnd] using hposition⟩
    rintro rfl
    exact expected.identifier_notMem_reported (mem_reported_of_parse_error h)

theorem parse_unexpected_found_nested :
    let outer : Lexer := ⟨⟨1, ['λ', 'x', '.', ')']⟩, some ⟨.openParen, "(", 0⟩⟩
    let inner : Lexer := ⟨⟨3, ['x', '.', ')']⟩, some ⟨.lambda, "λ", 1⟩⟩
    (parse "(λx.)" = .error (.unexpected .term .closeParen 5) ∧
      TokenKind.closeParen ≠ .identifier ∧
      (5 = "(λx.)".utf8ByteSize ↔ TokenKind.closeParen = .endOfInput) ∧
      ∃ l t l', Parser.Entered "(λx.)" ⟨.term, l⟩ ∧ Parser.ahead l = .ok (t, l') ∧
        Parser.beginsTerm t.kind = false ∧ t.kind = .closeParen ∧ t.position = 5) ∧
    (Parser.Entered "(λx.)" ⟨.group, outer⟩ ∧
      ∃ read, Parser.expect .openParen .term outer = .ok read) ∧
    Parser.Entered "(λx.)" ⟨.abstraction, inner⟩ ∧
      ∃ read, Parser.expect .lambda .term inner = .ok read := by
  intro outer inner
  have hfails : parse "(λx.)" = .error (.unexpected .term .closeParen 5) := by decide +kernel
  have hfirst : Parser.ahead (Lexer.ofText "(λx.)") = .ok (⟨.openParen, "(", 0⟩, outer) := by
    decide +kernel
  have htake : Parser.take .openParen .term outer =
      .ok (⟨.openParen, "(", 0⟩, ⟨⟨1, ['λ', 'x', '.', ')']⟩, none⟩) := by decide +kernel
  have hsecond : Parser.ahead (⟨⟨1, ['λ', 'x', '.', ')']⟩, none⟩ : Lexer) =
      .ok (⟨.lambda, "λ", 1⟩, inner) := by decide +kernel
  have houter : Parser.Entered "(λx.)" ⟨.group, outer⟩ :=
    .tail (.single (.operator _)) (.group hfirst rfl)
  have hinner : Parser.Entered "(λx.)" ⟨.abstraction, inner⟩ :=
    ((houter.tail (.grouped htake)).tail (.operator _)).tail (.abstraction hsecond rfl)
  obtain ⟨hkind, hposition⟩ := parse_unexpected_found.2.1 _ _ _ _ hfails
  exact ⟨⟨hfails, hkind, hposition, parse_unexpected_found.2.2.1 _ _ _ hfails⟩,
    ⟨houter, parse_unexpected_found.2.2.2.2 _ _ houter⟩,
    hinner, parse_unexpected_found.2.2.2.1 _ _ hinner⟩

end LambdaCalculus
