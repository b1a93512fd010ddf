import LambdaCalculus.Proofs.Rejection
import LambdaCalculus.Proofs.RoundTrip

namespace LambdaCalculus

def Word.spell (w : Word) : List Char := w.flatMap fun symbol => ' ' :: symbol.2.toList

theorem Word.endsIdentifier_spell (w : Word) : EndsIdentifier (spell w) := by
  cases w with
  | nil => exact .nil
  | cons symbol w => exact .cons _ (by decide)

theorem SpellsWord.spell {w : Word} (h : ∀ symbol ∈ w, Lexeme symbol.1 symbol.2.toList) :
    SpellsWord (Word.spell w) w := by
  induction w with
  | nil => exact .nil
  | cons symbol w ih =>
    have hw := ih fun symbol' hs => h symbol' (List.mem_cons_of_mem _ hs)
    have hsymbol := hw.lexeme (h symbol List.mem_cons_self) fun _ => Word.endsIdentifier_spell w
    exact hsymbol.space (by decide)

/-- The text that an error is about: that of the token which was found, or the character that begins
no token. -/
def TokenStream.Blames (s : TokenStream) : ParseError → String → Prop
  | .unexpected _ found position, piece => ⟨found, piece, position⟩ ∈ s.tokens
  | .lex (.unrecognizedCharacter c _), piece => piece = String.singleton c

theorem TokenStream.Blames.prepend {s : TokenStream} {e : ParseError} {piece : String}
    (h : s.Blames e piece) (us : List Token) : (s.prepend us).Blames e piece := by
  cases e with
  | unexpected _ _ _ => exact List.mem_append_right us h
  | lex d => exact h

def ParseError.atEnd : ParseError → Bool
  | unexpected _ found _ => found == .endOfInput
  | lex _ => false

theorem Lexes.of_raises {p : Nat} {text : List Char} {s : TokenStream} {e : ParseError}
    (h : Lexes p text s) (hspace : ∀ c ∈ text.head?, Text.isWhiteSpace c = false)
    (he : s.Raises e) :
    e.position = p ∧ (e.atEnd = true → text = []) ∧ (e.atEnd = false →
      ∃ c cs rest, text = c :: cs ++ rest ∧ s.Blames e (String.ofList (c :: cs)) ∧
        ∀ rest', ∃ u, Lexes p (c :: cs ++ rest') u ∧ u.get 0 = s.get 0) := by
  cases h with
  | atEnd p =>
    cases he with
    | lex hget => cases hget
    | unexpected expected hget _ =>
      cases hget
      exact ⟨rfl, fun _ => rfl, fun hend => absurd hend (by simp [ParseError.atEnd, Token.atEnd])⟩
  | space hc _ =>
    have hnot := hspace _ rfl
    rw [hc] at hnot
    cases hnot
  | @lexeme _ kind text rest s ht hr hrest =>
    cases he with
    | lex hget => cases hget
    | unexpected expected hget hrefuse =>
      cases hget
      have hkind : kind ≠ .identifier := by
        rintro rfl
        rw [expected.refuses_identifier] at hrefuse
        cases hrefuse
      refine ⟨rfl, fun hend => absurd (eq_of_beq hend) ht.kind_ne_endOfInput, fun _ => ?_⟩
      obtain ⟨c, cs, rfl, -⟩ := ht.isWhiteSpace_head
      refine ⟨c, cs, rest, rfl, List.mem_cons_self, fun rest' => ?_⟩
      exact ⟨_, .lexeme ht (fun hk => absurd hk hkind) (Lexes.ofLexer _ rest'), rfl⟩
  | @bad _ c rest hc hnone =>
    cases he with
    | unexpected expected hget _ => cases hget
    | lex hget =>
      cases hget
      refine ⟨rfl, fun hend => absurd hend (by simp [ParseError.atEnd]), fun _ => ?_⟩
      refine ⟨c, [], rest, rfl, rfl, fun rest' => ?_⟩
      have hbegins := Token.Rule.longest_all_eq_none_iff.1 hnone
      exact ⟨_, .bad p hc (Token.Rule.longest_all_eq_none_iff.2 hbegins), rfl⟩

/-- An error is found as early as can be: what stands in front of it is the beginning of some
expression. And it is final: no text behind the token or the character that it is about changes
it. -/
theorem parse_error_earliest {text : String} {e : ParseError} (h : parse text = .error e) :
    ∃ front back : String, text = front ++ back ∧ front.utf8ByteSize = e.position ∧
      (∃ rest f, parse (front ++ rest) = .ok f) ∧
      (e.atEnd = false → ∃ piece rest, back = piece ++ rest ∧
        (TokenStream.ofText text).Blames e piece ∧
        ∀ rest', parse (front ++ piece ++ rest') = .error e) ∧
      (e.atEnd = true → e.position = text.utf8ByteSize) := by
  obtain ⟨us, s, hstream, hraise, ⟨w, hw, f, hf⟩, hfinal⟩ := parse_rejects h
  have hlex := Lexes.ofText text
  rw [hstream] at hlex
  obtain ⟨front, back, htext, hspace, hs, hreplace⟩ := hlex.split
  rw [Nat.zero_add] at hs hreplace
  obtain ⟨hposition, hend, hpiece⟩ := hs.of_raises hspace hraise
  refine ⟨String.ofList front, String.ofList back, ?_, ?_, ?_, fun hat => ?_, fun hat => ?_⟩
  · rw [← String.ofList_append, ← htext, String.ofList_toList]
  · rw [byteLength_ofList, hposition]
  · obtain ⟨ts, hts, hsymbols⟩ := SpellsWord.spell hw (byteLength front)
    have hall := hreplace _ _ (fun _ => Word.endsIdentifier_spell w) hts.lexes
    refine ⟨String.ofList (Word.spell w), f, parse_eq_ok.2 ?_⟩
    rw [← String.ofList_append, Lexes.ofText_eq (by rwa [String.toList_ofList])]
    refine ⟨⟨_, rfl⟩, ?_⟩
    rwa [TokenStream.prepend, List.map_append, hsymbols]
  · obtain ⟨c, cs, rest, rfl, hblames, hother⟩ := hpiece hat
    refine ⟨String.ofList (c :: cs), String.ofList rest, String.ofList_append, ?_, fun rest' => ?_⟩
    · rw [hstream]
      exact hblames.prepend us
    · obtain ⟨u, hu, hget⟩ := hother rest'.toList
      have hall := hreplace (c :: cs ++ rest'.toList) u (fun hends => hends) hu
      rw [parse_eq_program, Lexes.ofText_eq (s := u.prepend us)]
      · exact hfinal u hget
      · simpa using hall
  · rw [hposition, ← byteLength_toList, htext, hend hat, List.append_nil]

theorem parse_error_earliest_missing_dot :
    parse "(λx y) z" = .error (.unexpected .dot .closeParen 6) ∧
      ∃ front back : String, "(λx y) z" = front ++ back ∧ front.utf8ByteSize = 6 ∧
        (∃ rest f, parse (front ++ rest) = .ok f) ∧ ∃ piece rest, back = piece ++ rest ∧
          ∀ rest', parse (front ++ piece ++ rest') =
            .error (.unexpected .dot .closeParen 6) := by
  have h : parse "(λx y) z" = .error (.unexpected .dot .closeParen 6) := by decide +kernel
  obtain ⟨front, back, htext, hsize, hprefix, hpiece, -⟩ := parse_error_earliest h
  obtain ⟨piece, rest, hback, -, hfinal⟩ := hpiece rfl
  exact ⟨h, front, back, htext, hsize, hprefix, piece, rest, hback, hfinal⟩

end LambdaCalculus
