import LambdaCalculus.Proofs.Scanning
import LambdaCalculus.Proofs.Simulation
import LambdaCalculus.Token.Stream

namespace LambdaCalculus

namespace Cursor

theorem Scans.at_end {c : Cursor} {answer : Except LexError Token × Cursor}
    (h : Scans c answer) {t : Token} (ha : answer.1 = .ok t) (ht : t.kind = .endOfInput) :
    answer.2.rest = [] ∧ t = .atEnd answer.2.position := by
  induction h with
  | space _ _ ih => exact ih ha
  | atEnd p => cases ha; exact ⟨rfl, rfl⟩
  | lexeme p hl _ => cases ha; exact absurd ht hl.kind_ne_endOfInput
  | bad p _ _ => cases ha

end Cursor

namespace Lexer

/-- A token of lookahead at the end of the text has been read there. -/
def Coherent (l : Lexer) : Prop :=
  ∀ t, l.peeked = some t → t.kind = .endOfInput →
    l.cursor.rest = [] ∧ t = .atEnd l.cursor.position

theorem coherent_of_none {l : Lexer} (h : l.peeked = none) : l.Coherent := by
  intro t ht
  rw [h] at ht
  cases ht

@[simp]
theorem peeked_next (l : Lexer) : l.next.2.peeked = none := by
  unfold next
  split <;> rfl

theorem next_nil (p : Nat) (peeked : Option Token) (h : ∀ t, peeked = some t → t = .atEnd p) :
    (⟨⟨p, []⟩, peeked⟩ : Lexer).next = (.ok (.atEnd p), ⟨⟨p, []⟩, none⟩) := by
  cases peeked with
  | none => rfl
  | some t => rw [h t rfl]; rfl

theorem next_at_end {l l' : Lexer} {t : Token} (hl : l.Coherent) (h : l.next = (.ok t, l'))
    (ht : t.kind = .endOfInput) : t = .atEnd t.position ∧ l'.next = (.ok t, l') := by
  have hend : l'.cursor.rest = [] ∧ t = .atEnd l'.cursor.position ∧ l'.peeked = none := by
    rcases next_eq_ok.1 h with ⟨hp, rfl⟩ | ⟨-, c, hscan, rfl⟩
    · obtain ⟨hrest, hend⟩ := hl t hp ht
      exact ⟨hrest, hend, rfl⟩
    · obtain ⟨hrest, hend⟩ := (Cursor.scans_scan l.cursor).at_end (by rw [hscan]) ht
      rw [hscan] at hrest hend
      exact ⟨hrest, hend, rfl⟩
  obtain ⟨⟨p, rest⟩, peeked⟩ := l'
  obtain ⟨rfl, rfl, rfl⟩ := hend
  exact ⟨rfl, next_nil p none (by simp)⟩

theorem next_of_peek {l l' : Lexer} {t : Token} (h : l.peek = (.ok t, l')) :
    l.next.1 = .ok t ∧ l'.next = l.next := by
  rcases peek_eq_ok.1 h with ⟨hp, rfl⟩ | ⟨hp, c, hscan, rfl⟩
  · exact ⟨by simp [next, hp], rfl⟩
  · simp [next, hp, hscan]

theorem next_of_peek_error {l l' : Lexer} {e : LexError} (h : l.peek = (.error e, l')) :
    l.next = (.error e, l') := next_eq_error.2 (peek_eq_error.1 h)

theorem coherent_peek {l l' : Lexer} {t : Token} (hl : l.Coherent) (h : l.peek = (.ok t, l')) :
    l'.Coherent := by
  rcases peek_eq_ok.1 h with ⟨-, rfl⟩ | ⟨-, c, hscan, rfl⟩
  · exact hl
  · intro u hu hend
    cases hu
    have hs := (Cursor.scans_scan l.cursor).at_end (by rw [hscan]) hend
    rwa [hscan] at hs

end Lexer

namespace TokenStream

def prepend (ts : List Token) (s : TokenStream) : TokenStream := ⟨ts ++ s.tokens, s.ending⟩

theorem ofLexer_error {l l' : Lexer} {e : LexError} (h : l.next = (.error e, l')) :
    ofLexer l = ⟨[], .error e⟩ := by
  rw [ofLexer]
  split
  · rename_i h'
    rw [h] at h'
    cases h'
    rfl
  · rename_i h'
    rw [h] at h'
    cases h'

theorem ofLexer_end {l l' : Lexer} {t : Token} (h : l.next = (.ok t, l'))
    (ht : t.kind = .endOfInput) : ofLexer l = ⟨[], .ok t.position⟩ := by
  rw [ofLexer]
  split
  · rename_i h'
    rw [h] at h'
    cases h'
  · rename_i h'
    rw [h] at h'
    cases h'
    rw [dif_pos ht]

theorem ofLexer_token {l l' : Lexer} {t : Token} (h : l.next = (.ok t, l'))
    (ht : t.kind ≠ .endOfInput) : ofLexer l = (ofLexer l').prepend [t] := by
  rw [ofLexer]
  split
  · rename_i h'
    rw [h] at h'
    cases h'
  · rename_i h'
    rw [h] at h'
    cases h'
    rw [dif_neg ht]
    rfl

theorem ofLexer_congr {l m : Lexer} (h : l.next = m.next) : ofLexer l = ofLexer m := by
  rcases hl : l.next with ⟨answer, l'⟩
  have hm : m.next = (answer, l') := h ▸ hl
  cases answer with
  | error e => rw [ofLexer_error hl, ofLexer_error hm]
  | ok t =>
    by_cases ht : t.kind = .endOfInput
    · rw [ofLexer_end hl ht, ofLexer_end hm ht]
    · rw [ofLexer_token hl ht, ofLexer_token hm ht]

theorem next_ofLexer {l l' : Lexer} {t : Token} (hl : l.Coherent) (h : l.next = (.ok t, l')) :
    (ofLexer l).next = .ok (t, ofLexer l') := by
  by_cases ht : t.kind = .endOfInput
  · obtain ⟨hend, hrepeat⟩ := Lexer.next_at_end hl h ht
    rw [ofLexer_end h ht, ofLexer_end hrepeat ht, hend]
    rfl
  · rw [ofLexer_token h ht]
    rfl

theorem next_ofLexer_error {l l' : Lexer} {e : LexError} (h : l.next = (.error e, l')) :
    (ofLexer l).next = .error e := by
  rw [ofLexer_error h]
  rfl

/-- Reading on demand and reading all at once give a parser the same tokens. -/
theorem simulates_ofLexer :
    Parser.Simulates (· = ·) fun (l : Lexer) (s : TokenStream) => l.Coherent ∧ s = ofLexer l where
  next := by
    rintro l _ ⟨hl, rfl⟩
    change Alike _ _ (Lexer.answered l.next) (ofLexer l).next
    rcases hn : l.next with ⟨answer, l'⟩
    cases answer with
    | error e =>
      rw [next_ofLexer_error hn]
      exact .error rfl
    | ok t =>
      rw [next_ofLexer hl hn]
      have hp := l.peeked_next
      rw [hn] at hp
      exact .ok ⟨⟨rfl, rfl, rfl⟩, Lexer.coherent_of_none hp, rfl⟩
  peek := by
    rintro l _ ⟨hl, rfl⟩
    change Alike _ _ (Lexer.answered l.peek) (ofLexer l).peek
    rcases hp : l.peek with ⟨answer, l'⟩
    rw [peek]
    cases answer with
    | error e =>
      rw [next_ofLexer_error (Lexer.next_of_peek_error hp)]
      exact .error rfl
    | ok t =>
      obtain ⟨hn, hsame⟩ := Lexer.next_of_peek hp
      rw [next_ofLexer hl (Prod.ext hn rfl)]
      exact .ok ⟨⟨rfl, rfl, rfl⟩, Lexer.coherent_peek hl hp, ofLexer_congr hsame.symm⟩

end TokenStream

theorem ParseError.Similar.eq {e d : ParseError} (h : ParseError.Similar (· = ·) e d) : e = d := by
  cases h with
  | unexpected expected found hp => rw [hp]
  | lex error => rfl

theorem Alike.eq {α : Type} {x y : Except ParseError α}
    (h : Alike (ParseError.Similar (· = ·)) (· = ·) x y) : x = y := by
  cases h with
  | error he => rw [he.eq]
  | ok ha => rw [ha]

theorem parse_eq_program (text : String) :
    parse text = Parser.program (TokenStream.ofText text) := by
  have hstart : (Lexer.ofText text).Coherent := Lexer.coherent_of_none rfl
  exact (Parser.program_alike TokenStream.simulates_ofLexer ⟨hstart, rfl⟩).eq

end LambdaCalculus
